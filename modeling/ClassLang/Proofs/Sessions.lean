/-
# Many checks on one log

An analyzer keeps its log from call to call, and a program that is given to it again is
the one that the earlier call has left. Calls compose in the simplest way: as long as
all of them end well, each is a check on a log of its own; after the first that fails,
every call fails, and it only adds records to the log.
-/

import ClassLang.Proofs.Phases
import ClassLang.Proofs.Source.Annotation

namespace ClassLang

theorem Program.annotations_withBuiltins (program : Program) :
    program.withBuiltins.annotations = program.annotations := by
  have hbuiltins : Builtin.classes.flatMap ClassDecl.annotations = [] := rfl
  unfold Program.withBuiltins
  split
  · rfl
  · simp [annotations, hbuiltins]

namespace Analysis

variable {options : Options} {program : Program} {log : Log}

/-- A check of the program on a log of its own ends well. -/
def Accepts (options : Options) (program : Program) : Prop :=
  ∃ hierarchy, (check options program).result = .ok hierarchy

/-! ## One call -/

/-- A log with records fails the first phase, before any type is written. -/
theorem run_of_records (hrecords : log.records ≠ []) :
    ∃ failure added, run options log program =
      { result := .error failure, program := program.withBuiltins,
        log := { log with records := log.records ++ added } } := by
  obtain ⟨base, linked, accepting, linking, hall⟩ :=
    Hierarchy.exists_assembles program.withBuiltins
  have hrun : (Hierarchy.build program.withBuiltins).runOn log =
      (linked, Pass.reportAll { log := log } (accepting ++ linking)) := hall.builds _
  obtain ⟨added, -, hadded⟩ :=
    Pass.exists_records_reportAll { log := log } (accepting ++ linking)
  have hlimit := Pass.limit_reportAll { log := log } (accepting ++ linking)
  simp only [run, hrun]
  generalize Pass.reportAll { log := log } (accepting ++ linking) = pass at hadded hlimit ⊢
  have hlog : pass.log = { log with records := log.records ++ added } := by
    rw [← hadded, ← hlimit]
  cases hphase : phaseResult pass with
  | error failure => exact ⟨failure, added, by rw [hlog]⟩
  | ok =>
      have hnone := records_of_phaseResult_ok hphase
      rw [hadded] at hnone
      exact absurd (List.append_eq_nil_iff.mp hnone).1 hrecords

theorem run_of_no_records (hlimit : log.limit = options.maxErrors) (hnone : log.records = []) :
    run options log program = check options program := by
  obtain ⟨limit, records⟩ := log
  obtain rfl : limit = options.maxErrors := hlimit
  obtain rfl : records = [] := hnone
  rfl

theorem limit_check (options : Options) (program : Program) :
    (check options program).log.limit = options.maxErrors := by
  obtain ⟨_, records, hfinds⟩ := exists_finds options program
  obtain ⟨value, hcheck, -⟩ := hfinds options.maxErrors
  rw [show check options program = _ from hcheck]
  exact Pass.limit_reportAll (Pass.fresh options.maxErrors) records

theorem records_check_eq_nil_iff (options : Options) (program : Program) :
    (check options program).log.records = [] ↔ Accepts options program := by
  rw [Accepts, (check_toldByCount options program).ok_iff, Log.count, List.length_eq_zero_iff]

/-- What one call does to the log that it is given. -/
structure Adds (options : Options) (log : Log) (program : Program) (outcome : Outcome) :
    Prop where
  limit : outcome.log.limit = options.maxErrors
  extends_records : log.records <+: outcome.log.records
  passes_iff : (∃ hierarchy, outcome.result = .ok hierarchy) ↔
    log.records = [] ∧ Accepts options program
  records_eq_nil_iff : outcome.log.records = [] ↔ log.records = [] ∧ Accepts options program

theorem adds_run (hlimit : log.limit = options.maxErrors) (program : Program) :
    Adds options log program (run options log program) := by
  by_cases hnone : log.records = []
  · rw [run_of_no_records hlimit hnone]
    refine ⟨limit_check options program, ?_, ?_, ?_⟩
    · rw [hnone]
      exact List.nil_prefix
    · rw [and_iff_right hnone]
      rfl
    · rw [and_iff_right hnone, records_check_eq_nil_iff]
  · obtain ⟨failure, added, hrun⟩ := @run_of_records options program log hnone
    rw [hrun]
    refine ⟨hlimit, List.prefix_append _ _, ?_, ?_⟩
    · simp [hnone]
    · simp [hnone]

/-! ## Sessions -/

/-- One call of an analyzer: the log and the program that it began with, and what it
left behind. -/
structure Call where
  before : Log
  program : Program
  outcome : Outcome

/-- The call ended well. -/
def Call.Passed (call : Call) : Prop :=
  ∃ hierarchy, call.outcome.result = .ok hierarchy

/-- The log of an analyzer and the programs that it can be called for. -/
structure Session (ι : Type) where
  log : Log
  programs : ι → Program

namespace Session

variable {ι : Type} {session : Session ι} {calls : List Call}

/-- An analyzer that has not been called yet. -/
def start (options : Options) (programs : ι → Program) : Session ι :=
  { log := { limit := options.maxErrors }, programs := programs }

/-- Call the analyzer for one of the programs. -/
def call (options : Options) (session : Session ι) (key : ι) : Call :=
  { before := session.log, program := session.programs key,
    outcome := run options session.log (session.programs key) }

/-- What calls make of a session: the log is that of the last call, and it is without
records just as long as all programs are accepted. -/
structure Follows (options : Options) (calls : List Call) (session : Session ι) : Prop where
  limit : session.log.limit = options.maxErrors
  log : session.log =
    (calls.getLast?.map fun call => call.outcome.log).getD { limit := options.maxErrors }
  passed_iff : session.log.records = [] ↔ ∀ call ∈ calls, call.Passed
  accepts_iff : session.log.records = [] ↔ ∀ call ∈ calls, Accepts options call.program

theorem follows_start (options : Options) (programs : ι → Program) :
    (start options programs).Follows options [] where
  limit := rfl
  log := rfl
  passed_iff := by simp [start]
  accepts_iff := by simp [start]

/-- How a call depends on those before it. -/
structure Composes (options : Options) (earlier : List Call) (call : Call) : Prop where
  /-- The call goes on with the log of the one before. -/
  resumes : call.before =
    (earlier.getLast?.map fun other => other.outcome.log).getD { limit := options.maxErrors }
  extends_records : call.before.records <+: call.outcome.log.records
  passed_iff : call.Passed ↔ ∀ other ∈ earlier ++ [call], Accepts options other.program
  fresh : (∀ other ∈ earlier, other.Passed) → call.outcome = check options call.program
  untouched : (∃ other ∈ earlier, ¬ other.Passed) →
    call.outcome.program = call.program.withBuiltins ∧
      call.outcome.program.annotations = call.program.annotations

theorem Follows.composes (hfollows : session.Follows options calls) (key : ι) :
    Composes options calls (session.call options key) := by
  have hadds := adds_run hfollows.limit (session.programs key)
  refine ⟨hfollows.log, hadds.extends_records, ?_, ?_, ?_⟩
  · rw [List.forall_mem_append, List.forall_mem_singleton, ← hfollows.accepts_iff]
    exact hadds.passes_iff
  · intro hpassed
    exact run_of_no_records hfollows.limit (hfollows.passed_iff.mpr hpassed)
  · rintro ⟨other, hother, hfailed⟩
    have hrecords : session.log.records ≠ [] := by
      intro hnone
      exact hfailed (hfollows.passed_iff.mp hnone other hother)
    obtain ⟨failure, added, hrun⟩ := @run_of_records options (session.programs key) _ hrecords
    have hprogram : (session.call options key).outcome.program =
        (session.programs key).withBuiltins := congrArg Outcome.program hrun
    exact ⟨hprogram, by rw [hprogram, Program.annotations_withBuiltins]; rfl⟩

variable [DecidableEq ι]

/-- The session after a call: the log and the program have changed. -/
def after (options : Options) (session : Session ι) (key : ι) : Session ι :=
  let outcome := (session.call options key).outcome
  { log := outcome.log,
    programs := fun other => if other = key then outcome.program else session.programs other }

/-- The calls that are made one after the other. -/
def history (options : Options) : Session ι → List ι → List Call
  | _, [] => []
  | session, key :: keys =>
    session.call options key :: history options (session.after options key) keys

theorem history_append (session : Session ι) (keys more : List ι) :
    session.history options (keys ++ more) =
      session.history options keys ++
        (keys.foldl (after options) session).history options more := by
  induction keys generalizing session with
  | nil => rfl
  | cons key keys ih => exact congrArg (_ :: ·) (ih (session.after options key))

theorem Follows.after (hfollows : session.Follows options calls) (key : ι) :
    (session.after options key).Follows options (calls ++ [session.call options key]) := by
  have hadds := adds_run hfollows.limit (session.programs key)
  have hnone : (session.after options key).log.records = [] ↔
      session.log.records = [] ∧ Accepts options (session.programs key) :=
    hadds.records_eq_nil_iff
  have hpassed : (session.call options key).Passed ↔
      session.log.records = [] ∧ Accepts options (session.programs key) :=
    hadds.passes_iff
  refine ⟨hadds.limit, ?_, ?_, ?_⟩
  · simp [Session.after]
  · rw [List.forall_mem_append, List.forall_mem_singleton, ← hfollows.passed_iff, hpassed, hnone]
    exact ⟨fun hboth => ⟨hboth.1, hboth⟩, And.right⟩
  · rw [List.forall_mem_append, List.forall_mem_singleton, ← hfollows.accepts_iff, hnone]
    rfl

theorem Follows.history (hfollows : session.Follows options calls) (keys : List ι) :
    (keys.foldl (Session.after options) session).Follows options
      (calls ++ session.history options keys) := by
  induction keys generalizing session calls with
  | nil => simpa [Session.history] using hfollows
  | cons key keys ih =>
      rw [Session.history, List.append_cons]
      exact ih (hfollows.after key)

/-- Every call of an analyzer composes with the calls before it. -/
theorem history_composes (options : Options) (programs : ι → Program) (keys : List ι) (key : ι) :
    ∃ call, (start options programs).history options (keys ++ [key]) =
        (start options programs).history options keys ++ [call] ∧
      Composes options ((start options programs).history options keys) call := by
  have hfollows := (follows_start options programs).history keys
  exact ⟨_, history_append _ keys [key], hfollows.composes key⟩

end Session

end Analysis

end ClassLang
