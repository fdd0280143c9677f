/-
# Passes over a program

A pass reports diagnostics to a log and goes on after each of them, until one
goes over the limit. From then on it is stopped: reports are ignored, and steps
that would change something are not taken. So a pass is an ordinary total
function, and what was done before it stopped is kept.
-/

import ClassLang.Diagnostic.Log

namespace ClassLang

/-- A pass in progress: its log, and whether the limit has stopped it. -/
structure Pass where
  log : Log
  stopped : Bool := false
  deriving DecidableEq, Repr

/-- Computations within a pass. -/
abbrev CheckM := StateM Pass

namespace Pass

/-- Report a diagnostic. The one that goes over the limit stops the pass. -/
def report (pass : Pass) (record : Diagnostic) : Pass :=
  if pass.stopped then pass
  else { log := pass.log.add record, stopped := (pass.log.add record).isOver }

/-- The result of a pass for its caller. -/
def outcome (pass : Pass) : Except Failure Unit :=
  if pass.stopped then .error (.tooMany pass.log.limit) else .ok ()

@[simp]
theorem report_of_stopped {pass : Pass} (hstopped : pass.stopped = true) (record : Diagnostic) :
    pass.report record = pass := by
  simp [report, hstopped]

@[simp]
theorem limit_report (pass : Pass) (record : Diagnostic) :
    (pass.report record).log.limit = pass.log.limit := by
  unfold report
  split <;> simp

/-- A pass that runs on keeps its log within the limit, if it started so. -/
theorem isOver_report_eq_stopped {pass : Pass} (hpass : pass.log.isOver = pass.stopped)
    (record : Diagnostic) :
    (pass.report record).log.isOver = (pass.report record).stopped := by
  unfold report
  split <;> simp_all

end Pass

namespace CheckM

/-- Report a diagnostic. -/
def report (record : Diagnostic) : CheckM Unit :=
  modify fun pass => pass.report record

/-- Report a diagnostic unless a condition holds. -/
def require (holds : Bool) (record : Diagnostic) : CheckM Unit :=
  if holds then pure () else report record

/-- Whether the pass has been stopped. -/
def isStopped : CheckM Bool :=
  return (← get).stopped

/-- The changed value, or the value as it was if the pass has been stopped. -/
def unlessStopped {α : Type} (old changed : α) : CheckM α :=
  return if ← isStopped then old else changed

/-- Run a pass of its own on a log. -/
def runOn {α : Type} (log : Log) (check : CheckM α) : α × Pass :=
  check.run { log := log }

end CheckM

end ClassLang
