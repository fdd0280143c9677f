/-
# Running graphs and running linear code

A graph and the linear code that is written for it are run by two machines. Both
show which blocks they enter and which instructions they execute, and both leave
the outcome of a comparison to an oracle that knows everything seen so far. What
instructions compute does not matter here: only returns and branches decide where
control goes.

The graph knows its blocks and goes from one to the next along edges. Linear code
has only the order of its items, its labels and its jumps. Neither machine is
defined through the other.
-/

import Mathlib.Logic.Function.Iterate
import ClassLang.Graph.Stream

namespace ClassLang.Graph

open ClassLang.Code

/-! ## Runs -/

/-- What can be seen of a run. -/
inductive Event where
  | enter (id : BlockId)
  | execute (code : Instruction)
  deriving DecidableEq, Repr

/-- Whether the comparison of the branch that was executed last holds. -/
abbrev Oracle := List Event → Bool

/-- Where control is. It is lost where nothing says how to go on. -/
inductive Control (Point : Type) where
  | here (point : Point)
  | halted
  | lost
  deriving DecidableEq, Repr

/-- Forget the point, but not whether there is one. -/
def Control.blur {Point : Type} : Control Point → Control Unit
  | .here _ => .here ()
  | halted => halted
  | lost => lost

/-- A run in progress: what was seen, and where control is. -/
structure Run (Point : Type) where
  seen : List Event := []
  control : Control Point
  deriving DecidableEq, Repr

namespace Run

variable {Point : Type}

/-- What an observer knows of a run. -/
def observed (run : Run Point) : Run Unit :=
  ⟨run.seen, run.control.blur⟩

/-- Go on by one step, unless the run has ended. -/
def advance (step : List Event → Point → Run Point) (run : Run Point) : Run Point :=
  match run.control with
  | .here point => step run.seen point
  | .halted | .lost => run

end Run

/-- An operation returns, branches, or does neither. -/
theorem operation_cases (operation : Operation) :
    (∃ value, operation = .ret value) ∨
      (∃ op left right onTrue onFalse, operation = .branch op left right onTrue onFalse) ∨
      (operation.isBranch = false ∧ operation.isReturn = false) := by
  cases operation <;> simp [Operation.isBranch, Operation.isReturn]

/-! ## Running a graph -/

/-- A point of a graph: before a block, or before an instruction of a block and
those that follow it there. -/
inductive GraphPoint where
  | entering (id : BlockId)
  | inside (block : Block) (code : Instruction) (rest : List Instruction)
  deriving DecidableEq, Repr

/-- Control before the last instructions of a block. At its end control goes on
to the only successor. -/
def Block.resume (block : Block) : List Instruction → Control GraphPoint
  | code :: rest => .here (.inside block code rest)
  | [] =>
    match block.succs with
    | [next] => .here (.entering next)
    | _ => .lost

/-- One step through a graph. -/
def graphStep (graph : Graph) (oracle : Oracle) (seen : List Event) :
    GraphPoint → Run GraphPoint
  | .entering id =>
    match graph.block? id with
    | some block => ⟨seen ++ [.enter id], block.resume block.instructions⟩
    | none => ⟨seen, .lost⟩
  | .inside block code rest =>
    let seen := seen ++ [.execute code]
    match code.operation with
    | .ret _ => ⟨seen, .halted⟩
    | .branch _ _ _ onTrue onFalse =>
      ⟨seen, .here (.entering (if oracle seen then onTrue else onFalse))⟩
    | _ => ⟨seen, block.resume rest⟩

/-- The run of a graph from an entry, after `steps` steps. -/
def graphRun (graph : Graph) (oracle : Oracle) (entry : BlockId) (steps : Nat) :
    Run GraphPoint :=
  (Run.advance (graphStep graph oracle))^[steps] { control := .here (.entering entry) }

theorem graphStep_plain {code : Instruction}
    (hplain : code.operation.isBranch = false ∧ code.operation.isReturn = false)
    (graph : Graph) (oracle : Oracle) (seen : List Event) (block : Block)
    (rest : List Instruction) :
    graphStep graph oracle seen (.inside block code rest) =
      ⟨seen ++ [.execute code], block.resume rest⟩ := by
  obtain ⟨operation, comments⟩ := code
  cases operation <;> simp_all [graphStep, Operation.isBranch, Operation.isReturn]

/-! ## Running linear code -/

/-- A point of linear code: before an item and those that follow it. -/
structure StreamPoint where
  item : StreamItem
  rest : List StreamItem
  deriving DecidableEq, Repr

/-- Control before the last items of linear code. It is lost behind them. -/
def resumeStream : List StreamItem → Control StreamPoint
  | item :: rest => .here ⟨item, rest⟩
  | [] => .lost

/-- Control at the first label of a block. -/
def seek (items : List StreamItem) (target : BlockId) : Control StreamPoint :=
  resumeStream (items.dropWhile (· ≠ .label target))

/-- One step through linear code. -/
def streamStep (items : List StreamItem) (oracle : Oracle) (seen : List Event) :
    StreamPoint → Run StreamPoint
  | ⟨.label id, rest⟩ => ⟨seen ++ [.enter id], resumeStream rest⟩
  | ⟨.jump target, _⟩ => ⟨seen, seek items target⟩
  | ⟨.instruction code, rest⟩ =>
    let seen := seen ++ [.execute code]
    match code.operation with
    | .ret _ => ⟨seen, .halted⟩
    | .branch _ _ _ onTrue _ =>
      ⟨seen, if oracle seen then seek items onTrue else resumeStream rest⟩
    | _ => ⟨seen, resumeStream rest⟩

theorem streamStep_plain {code : Instruction}
    (hplain : code.operation.isBranch = false ∧ code.operation.isReturn = false)
    (items : List StreamItem) (oracle : Oracle) (seen : List Event) (rest : List StreamItem) :
    streamStep items oracle seen ⟨.instruction code, rest⟩ =
      ⟨seen ++ [.execute code], resumeStream rest⟩ := by
  obtain ⟨operation, comments⟩ := code
  cases operation <;> simp_all [streamStep, Operation.isBranch, Operation.isReturn]

/-- The run of linear code from its first item, after `steps` steps. -/
def streamRun (items : List StreamItem) (oracle : Oracle) (steps : Nat) : Run StreamPoint :=
  (Run.advance (streamStep items oracle))^[steps] { control := resumeStream items }

end ClassLang.Graph
