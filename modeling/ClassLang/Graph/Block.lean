/-
# Basic blocks

A block is a run of instructions with a bounded number of edges in and out. It
also carries the source line and the nesting depths where it arose, comments for
listings, and a memo of the order that starts at it.
-/

import ClassLang.Code.Printer

namespace ClassLang.Graph

open ClassLang.Code

/-- A basic block. -/
structure Block where
  id : BlockId
  instructions : List Instruction := []
  line : Nat
  loopDepth : Nat := 0
  ifDepth : Nat := 0
  preds : List BlockId := []
  succs : List BlockId := []
  comments : List String := []
  /-- The remembered order of the blocks reachable from here. -/
  order : Option (List BlockId) := none
  deriving DecidableEq, Repr

namespace Block

/-- The most incoming edges that a block may have. -/
def maxPreds : Nat := 3

/-- The most outgoing edges that a block may have. -/
def maxSuccs : Nat := 2

/-- The operation at the end of a block. -/
def last? (block : Block) : Option Operation :=
  block.instructions.getLast?.map Instruction.operation

/-- The targets of the conditional branch at the end of a block. -/
def branchTargets? (block : Block) : Option (BlockId × BlockId) :=
  block.last?.bind Operation.branchTargets?

/-- A block that ends in a conditional branch takes no more instructions. -/
def isSealed (block : Block) : Bool :=
  block.last?.any Operation.isBranch

/-- The successors in the order in which they are visited: the target of a true
comparison first, the others as their edges were added. -/
def visitOrder (block : Block) : List BlockId :=
  match block.branchTargets? with
  | some (onTrue, _) =>
    if onTrue ∈ block.succs then onTrue :: block.succs.erase onTrue else block.succs
  | none => block.succs

/-- The block where control goes on after the last instruction, if it does: the
target of a false comparison, nothing after a return, else the first successor. -/
def fallThrough? (block : Block) : Option BlockId :=
  match block.last? with
  | some (.ret _) => none
  | some (.branch _ _ _ _ onFalse) => some onFalse
  | _ => block.succs.head?

/-- A list of block numbers in brackets. -/
def idsText (ids : List BlockId) : String :=
  "[" ++ ", ".intercalate (ids.map BlockId.text) ++ "]"

/-- The listing of a block. -/
def text (block : Block) : String :=
  block.id.text ++ ": line " ++ Nat.repr block.line ++ ", loop depth " ++
    Nat.repr block.loopDepth ++ ", if depth " ++ Nat.repr block.ifDepth ++
    "\n  preds: " ++ idsText block.preds ++ "\n  succs: " ++ idsText block.succs ++
    String.join (block.comments.map ("\n  // " ++ ·)) ++
    String.join (block.instructions.map ("\n    " ++ ·.text))

end Block

/-- A change to the notes of a block, which leaves its code and edges alone. -/
inductive BlockEdit where
  | line (line : Nat)
  | loopDepth (depth : Nat)
  | ifDepth (depth : Nat)
  | comment (text : String)
  deriving DecidableEq, Repr

/-- Make the change. -/
def BlockEdit.apply : BlockEdit → Block → Block
  | .line n, block => { block with line := n }
  | .loopDepth depth, block => { block with loopDepth := depth }
  | .ifDepth depth, block => { block with ifDepth := depth }
  | .comment text, block => { block with comments := block.comments ++ [text] }

end ClassLang.Graph
