/-
# Analysis of programs

The whole check of a program: its class tree, and if that is sound, its members,
its entry and its types. The outcome holds the program with what was added to it,
and the log, also when the check fails. Runs on the same log add to it.
-/

import ClassLang.Hierarchy.Build
import ClassLang.Hierarchy.Members
import ClassLang.Hierarchy.Entry
import ClassLang.Typing.Program

namespace ClassLang

/-- What a check can be told. -/
structure Options where
  /-- The limit of the log. -/
  maxErrors : Nat := Log.defaultLimit
  /-- Whether the program needs an entry. -/
  requireMain : Bool := true
  mainClass : String := "Main"
  mainMethod : String := "main"
  deriving DecidableEq, Repr

/-- The options for code that is not a program on its own. -/
def Options.library : Options :=
  { requireMain := false }

/-- What a check leaves behind. -/
structure Outcome where
  result : Except Failure Hierarchy
  program : Program
  log : Log

namespace Analysis

/-- The second phase once the members are collected: entry and types. -/
def checkBodies (options : Options) (hierarchy : Hierarchy) (program : Program) :
    CheckM (Hierarchy × Program) := do
  if options.requireMain then
    hierarchy.checkEntry options.mainClass options.mainMethod
  let program ← Typing.checkProgram hierarchy program
  return (hierarchy, program)

/-- The second phase: members, entry and types. -/
def checkMembers (options : Options) (hierarchy : Hierarchy) (program : Program) :
    CheckM (Hierarchy × Program) := do
  let hierarchy ← hierarchy.collectMembers program
  checkBodies options hierarchy program

/-- The result of a phase: a failure if it was stopped or anything is registered. -/
def phaseResult (pass : Pass) : Except Failure Unit := do
  pass.outcome
  pass.log.verdict

/-- Run the second phase on the log of the first. -/
def finish (options : Options) (log : Log) (hierarchy : Hierarchy) (program : Program) : Outcome :=
  let ((hierarchy, program), pass) := (checkMembers options hierarchy program).runOn log
  { result := (phaseResult pass).map fun _ => hierarchy, program, log := pass.log }

/-- Check a program, adding to a log. -/
def run (options : Options) (log : Log) (program : Program) : Outcome :=
  let program := program.withBuiltins
  let (hierarchy, pass) := (Hierarchy.build program).runOn log
  match phaseResult pass with
  | .error failure => { result := .error failure, program, log := pass.log }
  | .ok () => finish options pass.log hierarchy program

/-- Check a program on a log of its own. -/
def check (options : Options) (program : Program) : Outcome :=
  run options { limit := options.maxErrors } program

end Analysis

end ClassLang
