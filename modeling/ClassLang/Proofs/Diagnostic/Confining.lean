/-
# Which reports a check can make

A check is confined to certain records if it makes no other reports, whatever the pass is
and whatever values it has come to. This is put together from the steps of a check without
a look at their results. In the same way it is told which reports of one kind a check makes,
if the others are of no interest.
-/

import ClassLang.Proofs.Diagnostic.Pairing

namespace ClassLang.CheckM

variable {α β : Type} {allowed : Diagnostic → Prop}

/-- The check changes its pass by reports of allowed records only. -/
def Confined (allowed : Diagnostic → Prop) (check : CheckM α) : Prop :=
  ∀ pass, ∃ records, (check.run pass).2 = pass.reportAll records ∧
    ∀ record ∈ records, allowed record

namespace Confined

variable {check : CheckM α} {next : α → CheckM β}

theorem pure (value : α) : Confined allowed (Pure.pure value : CheckM α) :=
  fun _ => ⟨[], rfl, nofun⟩

theorem bind (hcheck : Confined allowed check) (hnext : ∀ value, Confined allowed (next value)) :
    Confined allowed (check >>= next) := by
  intro pass
  obtain ⟨first, hfirst, hallowed⟩ := hcheck pass
  obtain ⟨second, hsecond, hmore⟩ := hnext (check.run pass).1 (check.run pass).2
  refine ⟨first ++ second, ?_, List.forall_mem_append.mpr ⟨hallowed, hmore⟩⟩
  rw [Pass.reportAll_append, ← hfirst, ← hsecond]
  rfl

theorem report {record : Diagnostic} (hrecord : allowed record) :
    Confined allowed (CheckM.report record) :=
  fun _ => ⟨[record], rfl, List.forall_mem_singleton.mpr hrecord⟩

theorem ite {holds : Prop} [Decidable holds] {other : CheckM α}
    (htrue : holds → Confined allowed check) (hfalse : ¬ holds → Confined allowed other) :
    Confined allowed (if holds then check else other) := by
  split
  next hholds => exact htrue hholds
  next hnot => exact hfalse hnot

theorem require {holds : Bool} {record : Diagnostic} (hrecord : holds = false → allowed record) :
    Confined allowed (CheckM.require holds record) := by
  cases holds with
  | false => exact report (hrecord rfl)
  | true => exact pure ()

theorem unlessStopped (old changed : α) : Confined allowed (CheckM.unlessStopped old changed) :=
  fun _ => ⟨[], rfl, nofun⟩

theorem foldlM {step : β → α → CheckM β} {pieces : List α}
    (hstep : ∀ piece ∈ pieces, ∀ state, Confined allowed (step state piece)) (state : β) :
    Confined allowed (pieces.foldlM step state) := by
  induction pieces generalizing state with
  | nil => exact pure state
  | cons piece pieces ih =>
      rw [List.forall_mem_cons] at hstep
      rw [List.foldlM_cons]
      exact bind (hstep.1 state) fun next => ih hstep.2 next

theorem mapM {step : α → CheckM β} {pieces : List α}
    (hstep : ∀ piece ∈ pieces, Confined allowed (step piece)) :
    Confined allowed (pieces.mapM step) := by
  induction pieces with
  | nil => exact pure []
  | cons piece pieces ih =>
      rw [List.forall_mem_cons] at hstep
      rw [List.mapM_cons]
      exact bind hstep.1 fun _ => bind (ih hstep.2) fun _ => pure _

theorem forM {step : α → CheckM PUnit} {pieces : List α}
    (hstep : ∀ piece ∈ pieces, Confined allowed (step piece)) :
    Confined allowed (pieces.forM step) := by
  induction pieces with
  | nil => exact pure PUnit.unit
  | cons piece pieces ih =>
      rw [List.forall_mem_cons] at hstep
      exact bind hstep.1 fun _ => ih hstep.2

/-- The records that a check yields are allowed. -/
theorem of_yields (hcheck : Confined allowed check) {value : α} {records : List Diagnostic}
    (hyields : Yields check value records) : ∀ record ∈ records, allowed record := by
  -- on a pass with room for them the log has all of the records
  obtain ⟨made, hmade, hallowed⟩ := hcheck (Pass.fresh records.length)
  have hlog := Pass.records_reportAll_fresh records.length records
  rw [← hyields.pass_eq, hmade, Pass.records_reportAll_fresh,
    List.take_of_length_le (Nat.le_succ records.length)] at hlog
  intro record hrecord
  rw [← hlog] at hrecord
  exact hallowed record (List.mem_of_mem_take hrecord)

theorem reporting (hcheck : Confined allowed check) : Reporting check := by
  intro pass
  obtain ⟨records, hrecords, _⟩ := hcheck pass
  exact ⟨records, hrecords⟩

end Confined

/-! ## The reports of one kind -/

/-- On every pass the selected ones among the reports of the check are these, in this order. -/
def Selects (select : Diagnostic → Bool) (check : CheckM α) (selected : List Diagnostic) : Prop :=
  ∀ pass, ∃ records, (check.run pass).2 = pass.reportAll records ∧ records.filter select = selected

/-- No report of the check is selected. -/
abbrev Skips (select : Diagnostic → Bool) (check : CheckM α) : Prop :=
  Confined (fun record => select record = false) check

namespace Selects

variable {select : Diagnostic → Bool} {check : CheckM α} {next : α → CheckM β}
  {selected more : List Diagnostic}

theorem of_skips (hcheck : Skips select check) : Selects select check [] := by
  intro pass
  obtain ⟨records, hrecords, hskipped⟩ := hcheck pass
  exact ⟨records, hrecords, by simpa using hskipped⟩

theorem report {record : Diagnostic} (hrecord : select record = true) :
    Selects select (CheckM.report record) [record] :=
  fun _ => ⟨[record], rfl, List.filter_cons_of_pos hrecord⟩

theorem bind (hcheck : Selects select check selected)
    (hnext : ∀ value, Selects select (next value) more) :
    Selects select (check >>= next) (selected ++ more) := by
  intro pass
  obtain ⟨first, hfirst, hselected⟩ := hcheck pass
  obtain ⟨second, hsecond, hmore⟩ := hnext (check.run pass).1 (check.run pass).2
  refine ⟨first ++ second, ?_, by rw [List.filter_append, hselected, hmore]⟩
  rw [Pass.reportAll_append, ← hfirst, ← hsecond]
  rfl

theorem skip_bind (hcheck : Skips select check)
    (hnext : ∀ value, Selects select (next value) selected) :
    Selects select (check >>= next) selected :=
  (of_skips hcheck).bind hnext

theorem bind_skip (hcheck : Selects select check selected)
    (hnext : ∀ value, Skips select (next value)) : Selects select (check >>= next) selected := by
  have hbind := hcheck.bind fun value => of_skips (hnext value)
  rwa [List.append_nil] at hbind

/-- What the check adds to the log. All that is selected comes to be there, unless the limit
stops the pass. -/
theorem exists_added (hcheck : Selects select check selected) (pass : Pass) :
    ∃ added, (check.run pass).2.log.records = pass.log.records ++ added ∧
      added.filter select <+: selected ∧
      ((check.run pass).2.stopped = false → added.filter select = selected) := by
  obtain ⟨records, hrecords, hselected⟩ := hcheck pass
  rw [hrecords]
  obtain ⟨added, hadded, hlog⟩ := pass.exists_records_reportAll records
  refine ⟨added, hlog, hselected ▸ hadded.filter select, fun hrunning => ?_⟩
  rw [Pass.records_reportAll hrunning, List.append_cancel_left_eq] at hlog
  rw [← hlog, hselected]

end Selects

end ClassLang.CheckM
