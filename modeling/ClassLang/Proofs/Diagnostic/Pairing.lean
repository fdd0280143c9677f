/-
# Two runs of a check

What a pass keeps of the reports made to it is known from their number: all of them, or
as many as it takes to go over the limit. Two runs of a check are compared on paired
passes. Both have the same reports made to them until the first is stopped, and then the
second may still go on. `Follows` says what a check does to paired passes, and how the
results of the two runs are related, whether or not the first was stopped on the way.
-/

import ClassLang.Proofs.Diagnostic.Yielding

namespace ClassLang

/-! ## Reports up to the limit -/

namespace Pass

/-- A pass keeps what is reported up to the first record over the limit. -/
theorem records_reportAll_eq_take {pass : Pass} (hrunning : pass.stopped = false)
    (hroom : pass.log.count ≤ pass.log.limit) (records : List Diagnostic) :
    (pass.reportAll records).log.records =
      (pass.log.records ++ records).take (pass.log.limit + 1) := by
  induction records generalizing pass with
  | nil =>
      rw [reportAll_nil, List.append_nil, List.take_of_length_le]
      exact Nat.le_succ_of_le hroom
  | cons record records ih =>
      have hreport : pass.report record =
          { log := pass.log.add record, stopped := (pass.log.add record).isOver } := by
        rw [report, hrunning, if_neg Bool.false_ne_true]
      have hsplit : pass.log.records ++ record :: records =
          (pass.log.add record).records ++ records := by
        simp [Log.add]
      rw [reportAll_cons, hreport, hsplit]
      cases hover : (pass.log.add record).isOver with
      | false =>
          have hroom : (pass.log.add record).count ≤ (pass.log.add record).limit := by
            simpa [Log.isOver] using hover
          exact ih rfl hroom
      | true =>
          have hfull : (pass.log.add record).records.length = pass.log.limit + 1 := by
            have hcount : pass.log.limit < pass.log.count + 1 := by simpa [Log.isOver] using hover
            have hlength : (pass.log.add record).count = pass.log.count + 1 := by simp
            rw [Log.count] at hlength
            omega
          rw [reportAll_of_stopped rfl, ← hfull, List.take_left]

/-- A pass on an empty log. -/
def fresh (limit : Nat) : Pass :=
  { log := { limit := limit } }

theorem records_reportAll_fresh (limit : Nat) (records : List Diagnostic) :
    ((fresh limit).reportAll records).log.records = records.take (limit + 1) :=
  @records_reportAll_eq_take (fresh limit) rfl (Nat.zero_le limit) records

theorem isOver_reportAll_fresh (limit : Nat) (records : List Diagnostic) :
    ((fresh limit).reportAll records).log.isOver = ((fresh limit).reportAll records).stopped :=
  isOver_reportAll_eq_stopped rfl records

/-- A pass with room for all reports keeps them and goes on. -/
theorem reportAll_fresh_of_length_le {limit : Nat} {records : List Diagnostic}
    (hroom : records.length ≤ limit) :
    (fresh limit).reportAll records = { log := { limit := limit, records := records } } := by
  have hrecords : ((fresh limit).reportAll records).log.records = records := by
    rw [records_reportAll_fresh, List.take_of_length_le (Nat.le_succ_of_le hroom)]
  have hcount : ((fresh limit).reportAll records).log.count ≤ limit := by
    rwa [Log.count, hrecords]
  have hrunning : ((fresh limit).reportAll records).stopped = false :=
    running_of_count_le rfl hcount
  have hlimit := limit_reportAll (fresh limit) records
  generalize (fresh limit).reportAll records = pass at hrecords hrunning hlimit
  obtain ⟨⟨_, _⟩, _⟩ := pass
  cases hrecords
  cases hrunning
  cases hlimit
  rfl

/-! ## Paired passes -/

/-- Passes of two runs. The second is not stopped before the first; if it can run on after
the first is stopped, the two may come `apart`. -/
structure Pairing (paired : Pass → Pass → Prop) (apart : Prop) : Prop where
  running : ∀ {first second}, paired first second → first.stopped = false →
    second.stopped = false
  report : ∀ {first second} record, paired first second → first.stopped = false →
    paired (first.report record) (second.report record)
  ahead : ∀ {first second} record, paired first second → first.stopped = true →
    paired first (second.report record)
  apart : ∀ {first second}, paired first second → first.stopped = true →
    second.stopped = false → apart

/-- A run paired with itself. -/
theorem pairing_eq : Pairing (· = ·) False where
  running := by
    rintro first _ rfl hrunning
    exact hrunning
  report := by
    rintro first _ record rfl _
    rfl
  ahead := by
    rintro first _ record rfl hstopped
    rw [report_of_stopped hstopped]
  apart := by
    rintro first _ rfl hstopped hrunning
    rw [hstopped] at hrunning
    cases hrunning

/-- As long as the first pass runs, the second has as many records and no smaller limit. -/
def Behind (first second : Pass) : Prop :=
  first.stopped = false → second.stopped = false ∧ first.log.count = second.log.count ∧
    first.log.limit ≤ second.log.limit

/-- A run paired with one that has a larger limit. -/
theorem pairing_behind : Pairing Behind True where
  running hpaired hrunning := (hpaired hrunning).1
  report := by
    intro first second record hpaired hrunning
    obtain ⟨hsecond, hcount, hlimit⟩ := hpaired hrunning
    simp only [Behind, Pass.report, hrunning, hsecond, Bool.false_eq_true, if_false, Log.count_add,
      Log.limit_add, Log.isOver, decide_eq_false_iff_not]
    omega
  ahead := by
    intro first second record _ hstopped hrunning
    rw [hstopped] at hrunning
    cases hrunning
  apart _ _ _ := trivial

theorem behind_fresh {small large : Nat} (hle : small ≤ large) :
    Behind (fresh small) (fresh large) :=
  fun _ => ⟨rfl, rfl, hle⟩

namespace Pairing

variable {paired : Pass → Pass → Prop} {apart : Prop} {first second : Pass}

theorem ahead_reportAll (hpairing : Pairing paired apart) (hpaired : paired first second)
    (hstopped : first.stopped = true) (records : List Diagnostic) :
    paired first (second.reportAll records) := by
  induction records generalizing second with
  | nil => exact hpaired
  | cons record records ih => exact ih (hpairing.ahead record hpaired hstopped)

theorem reportAll (hpairing : Pairing paired apart) (hpaired : paired first second)
    (hrunning : first.stopped = false) (records : List Diagnostic) :
    paired (first.reportAll records) (second.reportAll records) := by
  induction records generalizing first second with
  | nil => exact hpaired
  | cons record records ih =>
      have hnext := hpairing.report record hpaired hrunning
      rw [reportAll_cons, reportAll_cons]
      cases hstopped : (first.report record).stopped with
      | false => exact ih hnext hstopped
      | true =>
          rw [reportAll_of_stopped hstopped]
          exact hpairing.ahead_reportAll hnext hstopped records

end Pairing

end Pass

/-! ## Checks on paired passes -/

namespace CheckM

variable {α β γ δ : Type} {paired : Pass → Pass → Prop} {apart known : Prop}

/-- The first check is run on the first of two paired passes and the second on the second,
where `known` may be relied on as long as the first pass is not stopped. Then the passes
are paired again. The results are related as `always` says, and as `running` says unless
the first pass is stopped by now. -/
def Follows (paired : Pass → Pass → Prop) (known : Prop) (always running : α → β → Prop)
    (check : CheckM α) (other : CheckM β) : Prop :=
  ∀ first second, paired first second → (first.stopped = false → known) →
    paired (check.run first).2 (other.run second).2 ∧
      always (check.run first).1 (other.run second).1 ∧
      ((check.run first).2.stopped = false →
        known ∧ running (check.run first).1 (other.run second).1)

namespace Follows

variable {always running : α → β → Prop} {alwaysNext runningNext : γ → δ → Prop}

theorem pure {value : α} {other : β} (halways : always value other)
    (hrunning : known → running value other) :
    Follows paired known always running (Pure.pure value) (Pure.pure other) := by
  intro first second hpaired hknown
  exact ⟨hpaired, halways, fun hrun => ⟨hknown hrun, hrunning (hknown hrun)⟩⟩

theorem bind {check : CheckM α} {other : CheckM β} {next : α → CheckM γ} {otherNext : β → CheckM δ}
    (hcheck : Follows paired known always running check other)
    (hnext : ∀ value otherValue, always value otherValue →
      Follows paired (known ∧ running value otherValue) alwaysNext runningNext (next value)
        (otherNext otherValue)) :
    Follows paired known alwaysNext runningNext (check >>= next) (other >>= otherNext) := by
  intro first second hpaired hknown
  obtain ⟨hmiddle, halways, hrunning⟩ := hcheck first second hpaired hknown
  obtain ⟨hlast, halwaysNext, hrunningNext⟩ := hnext _ _ halways _ _ hmiddle hrunning
  exact ⟨hlast, halwaysNext, fun hrun => ⟨(hrunningNext hrun).1.1, (hrunningNext hrun).2⟩⟩

/-- The same check on both passes; if the first is stopped, the checks may differ. -/
theorem rule (hpairing : Pass.Pairing paired apart) {check other : CheckM α}
    (hcheck : Agree check check) (hother : Agree other other) (hsame : known → check = other) :
    Follows paired known (fun _ _ => True) (· = ·) check other := by
  intro first second hpaired hknown
  obtain ⟨value, records, hyields, _⟩ := hcheck
  rw [hyields.pass_eq]
  cases hstopped : first.stopped with
  | true =>
      obtain ⟨_, otherRecords, hother, _⟩ := hother
      rw [Pass.reportAll_of_stopped hstopped, hother.pass_eq, hstopped]
      exact ⟨hpairing.ahead_reportAll hpaired hstopped otherRecords, trivial, nofun⟩
  | false =>
      have hpasses := hpairing.reportAll hpaired hstopped records
      rw [← hsame (hknown hstopped), hyields.pass_eq]
      refine ⟨hpasses, trivial, fun hrun => ⟨hknown hstopped, ?_⟩⟩
      rw [hyields.value_eq first hrun, hyields.value_eq second (hpairing.running hpasses hrun)]

/-- What the results have in common on all passes. -/
theorem with_always {check : CheckM α} {other : CheckM β}
    (hcheck : Follows paired known (fun _ _ => True) running check other)
    (hresults : ∀ first second, always (check.run first).1 (other.run second).1) :
    Follows paired known always running check other := by
  intro first second hpaired hknown
  obtain ⟨hpasses, _, hrunning⟩ := hcheck first second hpaired hknown
  exact ⟨hpasses, hresults first second, hrunning⟩

/-- A rule that is asked before the rest of a check. -/
theorem bind_rule {check other : CheckM α} {next : α → CheckM γ} {otherNext : α → CheckM δ}
    (hcheck : Follows paired known (fun _ _ => True) (· = ·) check other)
    (hnext : ∀ {found otherFound : α}, Follows paired (known ∧ found = otherFound) alwaysNext
      runningNext (next found) (otherNext otherFound)) :
    Follows paired known alwaysNext runningNext (check >>= next) (other >>= otherNext) :=
  hcheck.bind fun _ _ _ => hnext

end Follows

end CheckM

end ClassLang
