/-
# The log of diagnostics

A log keeps diagnostics in the order of their registration and has a limit. A
diagnostic that goes over the limit is still kept, and its registration reports
that there are too many. Reports show general diagnostics first, then those of
each file, files in the order in which they were first named.
-/

import ClassLang.Diagnostic.Basic

namespace ClassLang

/-- Why a check of a program fails. -/
inductive Failure where
  /-- Diagnostics were registered. -/
  | rejected (count : Nat) (report : String)
  /-- More diagnostics than the limit were registered. -/
  | tooMany (limit : Nat)
  deriving DecidableEq, Repr

/-- The wording of a failure. -/
def Failure.message : Failure → String
  | rejected count report => Nat.repr count ++ " semantic error(s) found:\n" ++ report
  | tooMany limit => "too many errors (more than " ++ Nat.repr limit ++ "), aborting"

/-- Diagnostics in order of registration, with the limit on their number. -/
structure Log where
  limit : Nat
  records : List Diagnostic := []
  deriving DecidableEq, Repr

namespace Log

/-- The limit of a log for which none is given. -/
def defaultLimit : Nat := 100

/-- The number of diagnostics. -/
def count (log : Log) : Nat :=
  log.records.length

/-- The number of diagnostics of a stage. -/
def countOf (log : Log) (stage : Stage) : Nat :=
  log.records.countP fun record => record.stage == stage

/-- Whether anything was registered. -/
def hasErrors (log : Log) : Bool :=
  !log.records.isEmpty

/-- Whether there are more diagnostics than the limit. -/
def isOver (log : Log) : Bool :=
  log.limit < log.count

/-- The log with one more diagnostic. -/
def add (log : Log) (record : Diagnostic) : Log :=
  { log with records := log.records ++ [record] }

/-- Register a diagnostic. It is kept even if it goes over the limit. -/
def register (log : Log) (record : Diagnostic) : Except Failure Unit × Log :=
  (if (log.add record).isOver then .error (.tooMany log.limit) else .ok (), log.add record)

/-- Drop all diagnostics. -/
def clear (log : Log) : Log :=
  { log with records := [] }

/-- The files that are named, each at its first occurrence. -/
def files (log : Log) : List String :=
  (log.records.filterMap Diagnostic.file).eraseDups

/-- What decides where a report shows a diagnostic. -/
structure SortKey where
  /-- Zero without a file, else one. -/
  located : Nat
  /-- The place of the file among the files that are named. -/
  group : Nat
  line : Nat
  deriving DecidableEq, Repr

/-- Keys are compared part by part, the first difference decides. -/
def SortKey.le (key other : SortKey) : Bool :=
  key.located < other.located || key.located == other.located &&
    (key.group < other.group || key.group == other.group && key.line ≤ other.line)

/-- The key of a diagnostic. -/
def sortKey (log : Log) (record : Diagnostic) : SortKey :=
  match record.file with
  | none => ⟨0, 0, 0⟩
  | some file => ⟨1, (log.files.idxOf? file).getD 0, record.sortLine⟩

/-- The diagnostics in the order of reports. Sorting is stable: those with the same
key stay as registered. -/
def sorted (log : Log) : List Diagnostic :=
  log.records.mergeSort fun record other => (log.sortKey record).le (log.sortKey other)

/-- The report: a line for every diagnostic. -/
def report (log : Log) : String :=
  "\n".intercalate (log.sorted.map Diagnostic.text)

/-- The verdict at the end of a phase: it fails if anything was registered. -/
def verdict (log : Log) : Except Failure Unit :=
  if log.hasErrors then .error (.rejected log.count log.report) else .ok ()

@[simp]
theorem count_add (log : Log) (record : Diagnostic) : (log.add record).count = log.count + 1 := by
  simp [add, count]

@[simp]
theorem limit_add (log : Log) (record : Diagnostic) : (log.add record).limit = log.limit := rfl

end Log

end ClassLang
