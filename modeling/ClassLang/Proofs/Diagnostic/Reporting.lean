/-
# What a pass does to its log

A check changes its pass in one way only, by reports. Three properties say how
much of that is known: `Reporting`, that nothing else happens; `Reports`, which
result and which records there are on every pass; and `Quiet`, that on a given
pass there is a result and no record. A check that reports only is quiet exactly
when each of its steps is.
-/

import ClassLang.Diagnostic.Pass

namespace ClassLang

/-! ## Many reports -/

namespace Pass

/-- The pass after reports, one after the other. -/
def reportAll (pass : Pass) (records : List Diagnostic) : Pass :=
  records.foldl report pass

@[simp]
theorem reportAll_nil (pass : Pass) : pass.reportAll [] = pass := rfl

@[simp]
theorem reportAll_cons (pass : Pass) (record : Diagnostic) (records : List Diagnostic) :
    pass.reportAll (record :: records) = (pass.report record).reportAll records := rfl

theorem reportAll_append (pass : Pass) (first second : List Diagnostic) :
    pass.reportAll (first ++ second) = (pass.reportAll first).reportAll second :=
  List.foldl_append

theorem reportAll_of_stopped {pass : Pass} (hstopped : pass.stopped = true)
    (records : List Diagnostic) : pass.reportAll records = pass := by
  induction records with
  | nil => rfl
  | cons record records ih => rw [reportAll_cons, report_of_stopped hstopped, ih]

theorem running_of_reportAll {pass : Pass} {records : List Diagnostic}
    (hrunning : (pass.reportAll records).stopped = false) : pass.stopped = false := by
  cases hstopped : pass.stopped with
  | false => rfl
  | true =>
      rw [reportAll_of_stopped hstopped, hstopped] at hrunning
      cases hrunning

/-- As long as a pass is not stopped, its log holds all that was reported. -/
theorem records_reportAll {pass : Pass} {records : List Diagnostic}
    (hrunning : (pass.reportAll records).stopped = false) :
    (pass.reportAll records).log.records = pass.log.records ++ records := by
  induction records generalizing pass with
  | nil => simp
  | cons record records ih =>
      have hpass := running_of_reportAll hrunning
      rw [reportAll_cons] at hrunning ⊢
      rw [ih hrunning, report, hpass]
      simp [Log.add]

/-- A pass adds some of what is reported to its log, up to the report that stops it. -/
theorem exists_records_reportAll (pass : Pass) (records : List Diagnostic) :
    ∃ added, added <+: records ∧
      (pass.reportAll records).log.records = pass.log.records ++ added := by
  induction records generalizing pass with
  | nil => exact ⟨[], List.nil_prefix, by simp⟩
  | cons record records ih =>
      cases hstopped : pass.stopped with
      | true => exact ⟨[], List.nil_prefix, by simp [reportAll_of_stopped hstopped]⟩
      | false =>
          obtain ⟨added, hadded, hrecords⟩ := ih (pass.report record)
          refine ⟨record :: added, List.cons_prefix_cons.mpr ⟨rfl, hadded⟩, ?_⟩
          rw [reportAll_cons, hrecords, report, hstopped]
          simp [Log.add]

theorem length_records_le_reportAll (pass : Pass) (records : List Diagnostic) :
    pass.log.records.length ≤ (pass.reportAll records).log.records.length := by
  obtain ⟨added, _, hrecords⟩ := pass.exists_records_reportAll records
  rw [hrecords, List.length_append]
  exact Nat.le_add_right _ _

/-- A report to a pass that is not stopped shows in the log for good. -/
theorem reportAll_eq_self_iff {pass : Pass} (hrunning : pass.stopped = false)
    {records : List Diagnostic} : (pass.reportAll records).log = pass.log ↔ records = [] := by
  constructor
  · intro hlog
    cases records with
    | nil => rfl
    | cons record records =>
        have hle := (pass.report record).length_records_le_reportAll records
        rw [reportAll_cons] at hlog
        rw [hlog, report, hrunning] at hle
        exact absurd hle (by simp [Log.add])
  · rintro rfl
    rfl

end Pass

/-! ## Checks that only report -/

namespace CheckM

variable {α β : Type}

/-- The check changes its pass by reports only. -/
def Reporting (check : CheckM α) : Prop :=
  ∀ pass, ∃ records, (check.run pass).2 = pass.reportAll records

namespace Reporting

theorem pure (value : α) : Reporting (Pure.pure value : CheckM α) :=
  fun _ => ⟨[], rfl⟩

theorem bind {check : CheckM α} {next : α → CheckM β} (hcheck : Reporting check)
    (hnext : ∀ value, Reporting (next value)) : Reporting (check >>= next) := by
  intro pass
  obtain ⟨first, hfirst⟩ := hcheck pass
  obtain ⟨second, hsecond⟩ := hnext (check.run pass).1 (check.run pass).2
  refine ⟨first ++ second, ?_⟩
  rw [Pass.reportAll_append, ← hfirst, ← hsecond]
  rfl

theorem report (record : Diagnostic) : Reporting (CheckM.report record) :=
  fun _ => ⟨[record], rfl⟩

theorem require (holds : Bool) (record : Diagnostic) :
    Reporting (CheckM.require holds record) := by
  unfold CheckM.require
  split
  · exact pure ()
  · exact report record

theorem unlessStopped (old changed : α) : Reporting (CheckM.unlessStopped old changed) :=
  fun _ => ⟨[], rfl⟩

theorem foldlM {step : β → α → CheckM β} (hstep : ∀ state value, Reporting (step state value))
    (values : List α) (state : β) : Reporting (values.foldlM step state) := by
  induction values generalizing state with
  | nil => exact pure state
  | cons value values ih =>
      rw [List.foldlM_cons]
      exact bind (hstep state value) fun next => ih next

theorem mapM {step : α → CheckM β} (hstep : ∀ value, Reporting (step value)) (values : List α) :
    Reporting (values.mapM step) := by
  induction values with
  | nil => exact pure []
  | cons value values ih =>
      rw [List.mapM_cons]
      exact bind (hstep value) fun _ => bind ih fun _ => pure _

end Reporting

/-! ## Checks with known records -/

/-- On every pass the check has this result and makes these reports. -/
def Reports (check : CheckM α) (value : α) (records : List Diagnostic) : Prop :=
  ∀ pass, check.run pass = (value, pass.reportAll records)

namespace Reports

theorem pure (value : α) : Reports (Pure.pure value) value [] :=
  fun _ => rfl

theorem report (record : Diagnostic) : Reports (CheckM.report record) () [record] :=
  fun _ => rfl

theorem bind {check : CheckM α} {next : α → CheckM β} {value : α} {result : β}
    {first second : List Diagnostic} (hcheck : Reports check value first)
    (hnext : Reports (next value) result second) :
    Reports (check >>= next) result (first ++ second) := by
  intro pass
  rw [StateT.run_bind, hcheck pass, Pass.reportAll_append]
  exact hnext _

/-- A check that is not stopped has added its records to the log. -/
theorem records_runOn {check : CheckM α} {value result : α} {records : List Diagnostic}
    {log : Log} {pass : Pass} (hcheck : Reports check value records)
    (hrun : check.runOn log = (result, pass)) (hrunning : pass.stopped = false) :
    result = value ∧ pass.log.records = log.records ++ records := by
  rw [CheckM.runOn, hcheck, Prod.mk.injEq] at hrun
  obtain ⟨rfl, rfl⟩ := hrun
  exact ⟨rfl, Pass.records_reportAll hrunning⟩

end Reports

/-- On every pass the check has this result, and its reports are the same. -/
def Returns (check : CheckM α) (value : α) : Prop :=
  ∃ records, Reports check value records

namespace Returns

theorem pure (value : α) : Returns (Pure.pure value) value :=
  ⟨[], .pure value⟩

theorem report (record : Diagnostic) : Returns (CheckM.report record) () :=
  ⟨[record], .report record⟩

theorem require (holds : Bool) (record : Diagnostic) :
    Returns (CheckM.require holds record) () := by
  unfold CheckM.require
  split
  · exact pure ()
  · exact report record

theorem bind {check : CheckM α} {next : α → CheckM β} {value : α} {result : β}
    (hcheck : Returns check value) (hnext : Returns (next value) result) :
    Returns (check >>= next) result := by
  obtain ⟨first, hfirst⟩ := hcheck
  obtain ⟨second, hsecond⟩ := hnext
  exact ⟨first ++ second, hfirst.bind hsecond⟩

theorem forM {step : α → CheckM PUnit} (hstep : ∀ piece, Returns (step piece) PUnit.unit)
    (pieces : List α) : Returns (pieces.forM step) PUnit.unit := by
  induction pieces with
  | nil => exact pure PUnit.unit
  | cons piece pieces ih => exact bind (hstep piece) ih

theorem foldlM {step : β → α → CheckM β} {next : β → α → β}
    (hstep : ∀ state piece, Returns (step state piece) (next state piece)) (pieces : List α)
    (state : β) : Returns (pieces.foldlM step state) (pieces.foldl next state) := by
  induction pieces generalizing state with
  | nil => exact pure state
  | cons piece pieces ih =>
      rw [List.foldlM_cons]
      exact bind (hstep state piece) (ih _)

end Returns

/-! ## Checks without records -/

/-- The check has this result on the pass and reports nothing. -/
def Quiet (pass : Pass) (check : CheckM α) (value : α) : Prop :=
  check.run pass = (value, pass)

section Quiet

variable {pass : Pass} (hrunning : pass.stopped = false)

include hrunning

theorem Reporting.quiet_of_log {check : CheckM α} (hcheck : Reporting check)
    (hlog : (check.run pass).2.log = pass.log) : Quiet pass check (check.run pass).1 := by
  obtain ⟨records, hrecords⟩ := hcheck pass
  rw [hrecords, Pass.reportAll_eq_self_iff hrunning] at hlog
  rw [hlog, Pass.reportAll_nil] at hrecords
  exact Prod.ext rfl hrecords

/-- A sequence is quiet exactly when both parts are. -/
theorem quiet_bind_iff {check : CheckM α} {next : α → CheckM β} (hcheck : Reporting check)
    (hnext : ∀ value, Reporting (next value)) {result : β} :
    Quiet pass (check >>= next) result ↔
      ∃ value, Quiet pass check value ∧ Quiet pass (next value) result := by
  constructor
  · intro hquiet
    obtain ⟨first, hfirst⟩ := hcheck pass
    obtain ⟨second, hsecond⟩ := hnext (check.run pass).1 (check.run pass).2
    have hrun : (next (check.run pass).1).run (check.run pass).2 = (result, pass) := hquiet
    have hall : (pass.reportAll (first ++ second)).log = pass.log := by
      rw [Pass.reportAll_append, ← hfirst, ← hsecond, hrun]
    rw [Pass.reportAll_eq_self_iff hrunning, List.append_eq_nil_iff] at hall
    rw [hall.1, Pass.reportAll_nil] at hfirst
    rw [hfirst] at hrun
    exact ⟨(check.run pass).1, Prod.ext rfl hfirst, hrun⟩
  · rintro ⟨value, hvalue, hresult⟩
    show (next (check.run pass).1).run (check.run pass).2 = (result, pass)
    rw [hvalue]
    exact hresult

theorem not_quiet_report (record : Diagnostic) : ¬ Quiet pass (CheckM.report record) () := by
  intro hquiet
  have hlog : (pass.reportAll [record]).log = pass.log :=
    congrArg (fun result => result.2.log) hquiet
  rw [Pass.reportAll_eq_self_iff hrunning] at hlog
  cases hlog

theorem quiet_require_iff {holds : Bool} {record : Diagnostic} :
    Quiet pass (CheckM.require holds record) () ↔ holds = true := by
  cases holds with
  | false => simpa [CheckM.require] using not_quiet_report hrunning record
  | true => exact ⟨fun _ => rfl, fun _ => rfl⟩

theorem quiet_unlessStopped_iff {old changed result : α} :
    Quiet pass (CheckM.unlessStopped old changed) result ↔ changed = result := by
  have hrun : (CheckM.unlessStopped old changed).run pass = (changed, pass) := by
    show (if pass.stopped = true then old else changed, pass) = (changed, pass)
    rw [hrunning]
    rfl
  rw [Quiet, hrun, Prod.mk.injEq, and_iff_left rfl]

/-- What each quiet step keeps holds in the end, and what each of them shows of its
value holds of all values. -/
theorem Quiet.foldlM {step : β → α → CheckM β} (hstep : ∀ state value, Reporting (step state value))
    {kept : β → Prop} {shown : α → Prop} {values : List α} {state result : β}
    (hkept : ∀ state value next, value ∈ values → kept state → Quiet pass (step state value) next →
      kept next ∧ shown value)
    (hstate : kept state) (hquiet : Quiet pass (values.foldlM step state) result) :
    kept result ∧ ∀ value ∈ values, shown value := by
  induction values generalizing state with
  | nil =>
      have hresult : (state, pass) = (result, pass) := hquiet
      rw [Prod.mk.injEq] at hresult
      exact ⟨hresult.1 ▸ hstate, nofun⟩
  | cons value values ih =>
      rw [List.foldlM_cons, quiet_bind_iff hrunning (hstep state value)
        fun next => .foldlM hstep values next] at hquiet
      obtain ⟨next, hfirst, hrest⟩ := hquiet
      obtain ⟨hnext, hvalue⟩ := hkept state value next List.mem_cons_self hstate hfirst
      obtain ⟨hresult, hvalues⟩ := ih (fun state value next hmem =>
        hkept state value next (List.mem_cons_of_mem _ hmem)) hnext hrest
      exact ⟨hresult, List.forall_mem_cons.mpr ⟨hvalue, hvalues⟩⟩

end Quiet

theorem quiet_pure_iff {pass : Pass} {value result : α} :
    Quiet pass (pure value) result ↔ value = result := by
  show (value, pass) = (result, pass) ↔ value = result
  rw [Prod.mk.injEq, and_iff_left rfl]

/-! ## Checks that decide -/

variable {γ δ : Type}

/-- The check reports only, and it is quiet with exactly those results whose view
`holds`. The second part is for what is given; the first is not, since after a report
a check goes on with values that no rule allows. -/
structure Decides (given : Prop) (view : α → γ) (check : CheckM α) (holds : γ → Prop) : Prop where
  reporting : Reporting check
  quiet_iff : given → ∀ {pass : Pass}, pass.stopped = false → ∀ {seen : γ},
    (∃ value, Quiet pass check value ∧ view value = seen) ↔ holds seen

namespace Decides

variable {given : Prop} {view : α → γ} {look : β → δ} {check : CheckM α} {next : α → CheckM β}
  {holds : γ → Prop}

theorem of_given {more : Prop} (hgiven : more → given) (hcheck : Decides given view check holds) :
    Decides more view check holds :=
  ⟨hcheck.reporting, fun hmore => hcheck.quiet_iff (hgiven hmore)⟩

/-- Nothing is to be decided where what is given cannot be. -/
theorem of_not_given (hgiven : ¬ given) (hcheck : Reporting check) :
    Decides given view check holds :=
  ⟨hcheck, fun h => absurd h hgiven⟩

theorem holds_of_quiet (hcheck : Decides given view check holds) (hgiven : given) {pass : Pass}
    (hrunning : pass.stopped = false) {value : α} (hquiet : Quiet pass check value) :
    holds (view value) :=
  (hcheck.quiet_iff hgiven hrunning).mp ⟨value, hquiet, rfl⟩

/-- The log tells whether the check is quiet. -/
theorem log_eq_iff {allowed : Prop} (hcheck : Decides given (fun _ => ()) check fun _ => allowed)
    (hgiven : given) {pass : Pass} (hrunning : pass.stopped = false) :
    (check.run pass).2.log = pass.log ↔ allowed := by
  constructor
  · intro hlog
    exact hcheck.holds_of_quiet hgiven hrunning (hcheck.reporting.quiet_of_log hrunning hlog)
  · intro hallowed
    have hquiet : ∃ value, Quiet pass check value ∧ () = () :=
      (hcheck.quiet_iff hgiven hrunning).mpr hallowed
    obtain ⟨value, hvalue, _⟩ := hquiet
    rw [hvalue]

theorem congr {other : γ → Prop} (hcheck : Decides given view check holds)
    (hother : given → ∀ seen, holds seen ↔ other seen) : Decides given view check other :=
  ⟨hcheck.reporting, fun hgiven _ hrunning seen =>
    (hcheck.quiet_iff hgiven hrunning).trans (hother hgiven seen)⟩

theorem pure (value : α) :
    Decides given view (Pure.pure value : CheckM α) fun seen => view value = seen where
  reporting := .pure value
  quiet_iff := by
    intro _ pass _ seen
    simp only [quiet_pure_iff, exists_eq_left']

theorem pure_snd (piece : α) (found : γ) :
    Decides given Prod.snd (Pure.pure (piece, found) : CheckM (α × γ)) fun seen => found = seen :=
  pure (piece, found)

/-- A branch that is not taken for what is given. -/
theorem ite_of_not {condition : Prop} [Decidable condition] {other : CheckM α}
    (hcondition : given → ¬ condition) (hother : Reporting other)
    (hcheck : Decides given view check holds) :
    Decides given view (if condition then other else check) holds := by
  split
  next htaken => exact of_not_given (fun hgiven => hcondition hgiven htaken) hother
  next => exact hcheck

theorem unlessStopped (old changed : α) :
    Decides given view (CheckM.unlessStopped old changed) fun seen => view changed = seen where
  reporting := .unlessStopped old changed
  quiet_iff := by
    intro _ pass hrunning seen
    simp only [quiet_unlessStopped_iff hrunning, exists_eq_left']

theorem require (condition : Bool) (record : Diagnostic) :
    Decides given (fun _ => ()) (CheckM.require condition record) fun _ => condition = true where
  reporting := .require condition record
  quiet_iff := by
    intro _ pass hrunning seen
    simp only [quiet_require_iff hrunning, exists_const, and_true]

/-- The second check may rely on what the first one has decided. -/
theorem bind_view {after : γ → δ → Prop} (hcheck : Decides given view check holds)
    (hnext : ∀ value, Decides (given ∧ holds (view value)) look (next value) (after (view value))) :
    Decides given look (check >>= next) fun seen => ∃ middle, holds middle ∧ after middle seen where
  reporting := hcheck.reporting.bind fun value => (hnext value).reporting
  quiet_iff := by
    intro hgiven pass hrunning seen
    have hreporting (value : α) : Reporting (next value) := (hnext value).reporting
    constructor
    · rintro ⟨result, hquiet, rfl⟩
      rw [quiet_bind_iff hrunning hcheck.reporting hreporting] at hquiet
      obtain ⟨value, hvalue, hresult⟩ := hquiet
      have hholds := (hcheck.quiet_iff hgiven hrunning).mp ⟨value, hvalue, rfl⟩
      refine ⟨view value, hholds, ?_⟩
      exact ((hnext value).quiet_iff ⟨hgiven, hholds⟩ hrunning).mp ⟨result, hresult, rfl⟩
    · rintro ⟨middle, hholds, hafter⟩
      obtain ⟨value, hvalue, rfl⟩ := (hcheck.quiet_iff hgiven hrunning).mpr hholds
      obtain ⟨result, hresult, hlook⟩ :=
        ((hnext value).quiet_iff ⟨hgiven, hholds⟩ hrunning).mpr hafter
      refine ⟨result, ?_, hlook⟩
      rw [quiet_bind_iff hrunning hcheck.reporting hreporting]
      exact ⟨value, hvalue, hresult⟩

theorem bind {check : CheckM γ} {next : γ → CheckM β} {after : γ → δ → Prop}
    (hcheck : Decides given id check holds)
    (hnext : ∀ value, Decides (given ∧ holds value) look (next value) (after value)) :
    Decides given look (check >>= next) fun seen => ∃ middle, holds middle ∧ after middle seen :=
  hcheck.bind_view hnext

/-- Of a rewritten piece of the program and what was found for it, only the second
is looked at. -/
theorem bind_snd {check : CheckM (α × γ)} {next : α × γ → CheckM β} {after : γ → δ → Prop}
    (hcheck : Decides given Prod.snd check holds)
    (hnext : ∀ piece found,
      Decides (given ∧ holds found) look (next (piece, found)) (after found)) :
    Decides given look (check >>= next) fun seen => ∃ found, holds found ∧ after found seen :=
  hcheck.bind_view fun value => hnext value.1 value.2

/-- Nothing of the result is looked at. -/
theorem bind_unit {allowed : Prop} {after : δ → Prop}
    (hcheck : Decides given (fun _ => ()) check fun _ => allowed)
    (hnext : ∀ value, Decides (given ∧ allowed) look (next value) after) :
    Decides given look (check >>= next) fun seen => allowed ∧ after seen := by
  have hbind : Decides given look (check >>= next) fun seen => ∃ _ : Unit, allowed ∧ after seen :=
    hcheck.bind_view hnext
  refine hbind.congr fun _ seen => ?_
  rw [exists_const]

/-- After a report nothing is quiet. -/
theorem report_bind {record : Diagnostic} {next : Unit → CheckM β}
    (hnext : ∀ value, Reporting (next value)) :
    Decides given look (CheckM.report record >>= next) fun _ => False where
  reporting := .bind (.report record) hnext
  quiet_iff := by
    intro _ pass hrunning seen
    refine iff_false_intro ?_
    rintro ⟨result, hquiet, _⟩
    obtain ⟨_, hreport, _⟩ := (quiet_bind_iff hrunning (.report record) hnext).mp hquiet
    exact not_quiet_report hrunning record hreport

/-- What is already there is reported, and what is not is checked. -/
theorem report_of_isSome {σ : Type} {found : Option σ} {record : Diagnostic} {old : α}
    (hcheck : Decides given view check holds) :
    Decides given view
      (if found.isSome then CheckM.report record >>= fun _ => Pure.pure old else check)
      fun seen => found = none ∧ holds seen := by
  cases found with
  | none => exact hcheck.congr fun _ _ => by simp
  | some _ => exact (report_bind fun _ => .pure old).congr fun _ _ => by simp

/-- Checks of the members of a list, of whose results nothing is looked at. -/
theorem mapM {step : α → CheckM β} {allowed : α → Prop} {values : List α}
    (hstep : ∀ value ∈ values, Decides given (fun _ => ()) (step value) fun _ => allowed value) :
    Decides given (fun _ => ()) (values.mapM step) fun _ => ∀ value ∈ values, allowed value := by
  induction values with
  | nil =>
      refine (Decides.pure []).congr fun _ _ => ?_
      simp
  | cons value values ih =>
      rw [List.forall_mem_cons] at hstep
      rw [List.mapM_cons]
      simp only [List.forall_mem_cons]
      refine hstep.1.bind_unit fun result => ?_
      refine congr (bind_unit ((ih hstep.2).of_given And.left) fun results => pure _) fun _ _ => ?_
      simp

theorem forM {step : α → CheckM PUnit} {allowed : α → Prop} {values : List α}
    (hstep : ∀ value ∈ values, Decides given (fun _ => ()) (step value) fun _ => allowed value) :
    Decides given (fun _ => ()) (values.forM step) fun _ => ∀ value ∈ values, allowed value := by
  induction values with
  | nil =>
      refine (Decides.pure PUnit.unit).congr fun _ _ => ?_
      simp
  | cons value values ih =>
      rw [List.forall_mem_cons] at hstep
      simp only [List.forall_mem_cons]
      exact hstep.1.bind_unit fun _ => (ih hstep.2).of_given And.left

end Decides

end CheckM

end ClassLang
