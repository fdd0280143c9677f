/-
# Checks whose records do not depend on the pass

A check that is stopped goes on with values that it would not find otherwise, so its
result says something only on a pass that runs to the end. Its reports are the same on
every pass: those after the stop are ignored, whatever they are. `Yields` says which
result and which reports these are, and `Agree` that they are the same for two checks.
-/

import Mathlib.Tactic.Choose
import ClassLang.Proofs.Diagnostic.Reporting

namespace ClassLang

/-! ## Passes within their limit -/

namespace Pass

@[simp]
theorem limit_reportAll (pass : Pass) (records : List Diagnostic) :
    (pass.reportAll records).log.limit = pass.log.limit := by
  induction records generalizing pass with
  | nil => rfl
  | cons record records ih => rw [reportAll_cons, ih, limit_report]

theorem isOver_reportAll_eq_stopped {pass : Pass} (hpass : pass.log.isOver = pass.stopped)
    (records : List Diagnostic) :
    (pass.reportAll records).log.isOver = (pass.reportAll records).stopped := by
  induction records generalizing pass with
  | nil => exact hpass
  | cons record records ih => exact ih (isOver_report_eq_stopped hpass record)

/-- A pass whose log is within the limit was not stopped. -/
theorem running_of_count_le {pass : Pass} (hpass : pass.log.isOver = pass.stopped)
    {records : List Diagnostic} (hcount : (pass.reportAll records).log.count ≤ pass.log.limit) :
    (pass.reportAll records).stopped = false := by
  rw [← isOver_reportAll_eq_stopped hpass, Log.isOver, limit_reportAll]
  simpa using hcount

end Pass

namespace CheckM

variable {α β γ : Type}

/-! ## What a check yields -/

/-- On every pass the check makes these reports, and on a pass that they do not stop it
has this result. -/
structure Yields (check : CheckM α) (value : α) (records : List Diagnostic) : Prop where
  pass_eq : ∀ pass, (check.run pass).2 = pass.reportAll records
  value_eq : ∀ pass, (pass.reportAll records).stopped = false → (check.run pass).1 = value

theorem Reports.yields {check : CheckM α} {value : α} {records : List Diagnostic}
    (hcheck : Reports check value records) : Yields check value records where
  pass_eq pass := by rw [hcheck pass]
  value_eq pass _ := by rw [hcheck pass]

namespace Yields

theorem reporting {check : CheckM α} {value : α} {records : List Diagnostic}
    (hcheck : Yields check value records) : Reporting check :=
  fun pass => ⟨records, hcheck.pass_eq pass⟩

theorem unlessStopped (old changed : α) : Yields (CheckM.unlessStopped old changed) changed [] where
  pass_eq _ := rfl
  value_eq pass hrunning := by
    show (if pass.stopped = true then old else changed) = changed
    rw [Pass.reportAll_nil] at hrunning
    rw [hrunning, if_neg Bool.false_ne_true]

/-- After a stop nothing is reported, so it does not matter with which value the second
check goes on. -/
theorem bind {check : CheckM α} {next : α → CheckM β} {value : α} {result : β}
    {first second : List Diagnostic} (hcheck : Yields check value first)
    (hnext : Yields (next value) result second) (hothers : ∀ other, Reporting (next other)) :
    Yields (check >>= next) result (first ++ second) where
  pass_eq pass := by
    show ((next (check.run pass).1).run (check.run pass).2).2 = _
    rw [hcheck.pass_eq, Pass.reportAll_append]
    cases hstopped : (pass.reportAll first).stopped with
    | false => rw [hcheck.value_eq pass hstopped, hnext.pass_eq]
    | true =>
        obtain ⟨ignored, hignored⟩ := hothers (check.run pass).1 (pass.reportAll first)
        rw [hignored, Pass.reportAll_of_stopped hstopped, Pass.reportAll_of_stopped hstopped]
  value_eq pass hrunning := by
    show ((next (check.run pass).1).run (check.run pass).2).1 = _
    rw [Pass.reportAll_append] at hrunning
    rw [hcheck.pass_eq, hcheck.value_eq pass (Pass.running_of_reportAll hrunning)]
    exact hnext.value_eq _ hrunning

theorem mapM {step : α → CheckM β} {value : α → β} {records : α → List Diagnostic}
    (hstep : ∀ piece, Yields (step piece) (value piece) (records piece)) (pieces : List α) :
    Yields (pieces.mapM step) (pieces.map value) (pieces.flatMap records) := by
  have hreporting := Reporting.mapM fun piece => (hstep piece).reporting
  induction pieces with
  | nil => exact (Reports.pure []).yields
  | cons piece pieces ih =>
      rw [List.mapM_cons, List.map_cons, List.flatMap_cons, ← List.append_nil (_ ++ _),
        List.append_assoc]
      refine bind (hstep piece) ?_ fun _ => .bind (hreporting pieces) fun _ => .pure _
      exact bind ih (Reports.pure _).yields fun _ => .pure _

/-- The result and the reports of a check are its own. -/
theorem unique {check : CheckM α} {value other : α} {records more : List Diagnostic}
    (hcheck : Yields check value records) (hother : Yields check other more) :
    value = other ∧ records = more := by
  -- on a pass with room for all reports the log tells which there were
  let pass : Pass := { log := { limit := records.length } }
  have hrunning : (pass.reportAll records).stopped = false := by
    obtain ⟨added, hadded, hlog⟩ := pass.exists_records_reportAll records
    apply Pass.running_of_count_le rfl
    rw [Log.count, hlog]
    simpa [pass] using hadded.length_le
  have hsame : pass.reportAll records = pass.reportAll more := by
    rw [← hcheck.pass_eq, hother.pass_eq]
  refine ⟨?_, ?_⟩
  · rw [← hcheck.value_eq pass hrunning, hother.value_eq pass (hsame ▸ hrunning)]
  · have hrecords := Pass.records_reportAll hrunning
    have hmore := Pass.records_reportAll (hsame ▸ hrunning : (pass.reportAll more).stopped = false)
    rw [hsame, hmore] at hrecords
    exact (List.append_cancel_left hrecords).symm

theorem eq_of_runOn {check : CheckM α} {value result : α} {records : List Diagnostic}
    {log : Log} {pass : Pass} (hcheck : Yields check value records)
    (hrun : check.runOn log = (result, pass)) (hrunning : pass.stopped = false) :
    result = value := by
  obtain ⟨rfl, rfl⟩ := Prod.mk.inj hrun
  apply hcheck.value_eq
  rwa [← hcheck.pass_eq]

/-- A check that makes no reports has its result on every pass that runs. -/
theorem quiet {check : CheckM α} {value : α} (hcheck : Yields check value []) {pass : Pass}
    (hrunning : pass.stopped = false) : Quiet pass check value :=
  Prod.ext (hcheck.value_eq pass hrunning) (hcheck.pass_eq pass)

/-- A check within the limit has its result and has added its records to the log. -/
theorem runOn_eq {check : CheckM α} {value : α} {records : List Diagnostic}
    (hcheck : Yields check value records) {log : Log} (hlog : log.isOver = false)
    (hcount : (check.runOn log).2.log.count ≤ log.limit) :
    check.runOn log = (value, { log := { log with records := log.records ++ records } }) := by
  have hpass : (check.runOn log).2 = Pass.reportAll { log := log } records := hcheck.pass_eq _
  rw [hpass] at hcount
  have hrunning := Pass.running_of_count_le hlog hcount
  refine Prod.ext (hcheck.value_eq _ hrunning) ?_
  rw [hpass]
  have hrecords := Pass.records_reportAll hrunning
  have hlimit := Pass.limit_reportAll { log := log } records
  generalize Pass.reportAll { log := log } records = pass at hrunning hrecords hlimit
  obtain ⟨⟨limit, records⟩, stopped⟩ := pass
  obtain rfl : stopped = false := hrunning
  obtain rfl : limit = log.limit := hlimit
  obtain rfl : records = _ := hrecords
  rfl

end Yields

/-! ## Checks that yield the same -/

/-- Both checks yield the same result and the same records. -/
def Agree (check other : CheckM α) : Prop :=
  ∃ value records, Yields check value records ∧ Yields other value records

namespace Agree

theorem pure (value : α) : Agree (Pure.pure value : CheckM α) (Pure.pure value) :=
  ⟨value, [], (Reports.pure value).yields, (Reports.pure value).yields⟩

theorem report (record : Diagnostic) : Agree (CheckM.report record) (CheckM.report record) :=
  ⟨(), [record], (Reports.report record).yields, (Reports.report record).yields⟩

theorem unlessStopped (old changed : α) :
    Agree (CheckM.unlessStopped old changed) (CheckM.unlessStopped old changed) :=
  ⟨changed, [], .unlessStopped old changed, .unlessStopped old changed⟩

theorem ite {condition : Prop} [Decidable condition] {check other thenCheck thenOther : CheckM α}
    (hthen : Agree thenCheck thenOther) (helse : Agree check other) :
    Agree (if condition then thenCheck else check) (if condition then thenOther else other) := by
  split
  · exact hthen
  · exact helse

theorem require (holds : Bool) (record : Diagnostic) :
    Agree (CheckM.require holds record) (CheckM.require holds record) :=
  ite (pure ()) (report record)

theorem bind {check other : CheckM α} {next otherNext : α → CheckM β} (hcheck : Agree check other)
    (hnext : ∀ value, Agree (next value) (otherNext value)) :
    Agree (check >>= next) (other >>= otherNext) := by
  obtain ⟨value, first, hfirst, hfirst'⟩ := hcheck
  obtain ⟨result, second, hsecond, hsecond'⟩ := hnext value
  refine ⟨result, first ++ second, hfirst.bind hsecond fun value => ?_,
    hfirst'.bind hsecond' fun value => ?_⟩
  · obtain ⟨_, _, hyields, _⟩ := hnext value
    exact hyields.reporting
  · obtain ⟨_, _, _, hyields⟩ := hnext value
    exact hyields.reporting

/-- A result that has two parts. -/
theorem bind_pair {check other : CheckM (α × β)} {next otherNext : α × β → CheckM γ}
    (hcheck : Agree check other)
    (hnext : ∀ piece found, Agree (next (piece, found)) (otherNext (piece, found))) :
    Agree (check >>= next) (other >>= otherNext) :=
  hcheck.bind fun value => hnext value.1 value.2

theorem foldlM {step otherStep : β → α → CheckM β}
    (hstep : ∀ state piece, Agree (step state piece) (otherStep state piece)) (pieces : List α)
    (state : β) : Agree (pieces.foldlM step state) (pieces.foldlM otherStep state) := by
  induction pieces generalizing state with
  | nil => exact pure state
  | cons piece pieces ih =>
      rw [List.foldlM_cons, List.foldlM_cons]
      exact bind (hstep state piece) fun next => ih next

theorem mapM {step otherStep : α → CheckM β}
    (hstep : ∀ piece, Agree (step piece) (otherStep piece)) (pieces : List α) :
    Agree (pieces.mapM step) (pieces.mapM otherStep) := by
  choose value records hstep hotherStep using hstep
  exact ⟨pieces.map value, pieces.flatMap records, .mapM hstep pieces, .mapM hotherStep pieces⟩

theorem forM {step otherStep : α → CheckM PUnit}
    (hstep : ∀ piece, Agree (step piece) (otherStep piece)) (pieces : List α) :
    Agree (pieces.forM step) (pieces.forM otherStep) := by
  induction pieces with
  | nil => exact pure PUnit.unit
  | cons piece pieces ih => exact bind (hstep piece) fun _ => ih

end Agree

end CheckM

end ClassLang
