/-
# Errors of graph operations

Every refusal names its cause; the wording is given once, here.
-/

import ClassLang.Graph.Block

namespace ClassLang.Graph

open ClassLang.Code

/-- A side of a block. -/
inductive Side where
  | pred | succ
  deriving DecidableEq, Repr

/-- The wording of a side. -/
def Side.text : Side → String
  | pred => "predecessor"
  | succ => "successor"

/-- What is wrong with the edges of a block. -/
inductive BlockDefect where
  | emptyBlock (count : Nat)
  | branchCount (count : Nat)
  | branchTargets (onTrue onFalse : BlockId)
  | returnCount (count : Nat)
  | plainCount (count : Nat)
  | depthGap (side : Side) (neighbour : BlockId) (gap : Nat)
  | depthChanges (side : Side) (count : Nat)
  deriving DecidableEq, Repr

/-- The wording of a defect. -/
def BlockDefect.message : BlockDefect → String
  | emptyBlock count =>
    "empty block must have exactly one successor, found " ++ Nat.repr count
  | branchCount count =>
    "block ending in a branch must have two successors, found " ++ Nat.repr count
  | branchTargets onTrue onFalse =>
    "branch targets " ++ onTrue.text ++ " and " ++ onFalse.text ++ " do not match the successors"
  | returnCount count =>
    "block ending in a return may have at most one successor, found " ++ Nat.repr count
  | plainCount count => "block must have exactly one successor, found " ++ Nat.repr count
  | depthGap side neighbour gap =>
    "loop depth of " ++ side.text ++ " " ++ neighbour.text ++ " differs by " ++ Nat.repr gap
  | depthChanges side count =>
    Nat.repr count ++ " " ++ side.text ++ "s differ in loop depth, at most one may"

/-- Why a graph operation is refused. -/
inductive GraphError where
  | unknownBlock (id : BlockId)
  | blockSealed (id : BlockId)
  | tooManyPreds (id : BlockId)
  | tooManySuccs (id : BlockId)
  | edgeNotFound (source target : BlockId)
  | entryHasPreds (id : BlockId) (count : Nat)
  | malformedBlock (block : Block) (defect : BlockDefect)
  deriving DecidableEq, Repr

/-- The wording of a refusal. A malformed block is shown in full. -/
def GraphError.message : GraphError → String
  | unknownBlock id => "unknown block " ++ id.text
  | blockSealed id =>
    "block " ++ id.text ++ " is sealed by a conditional branch, cannot append"
  | tooManyPreds id =>
    "block " ++ id.text ++ " already has " ++ Nat.repr Block.maxPreds ++ " incoming edges"
  | tooManySuccs id =>
    "block " ++ id.text ++ " already has " ++ Nat.repr Block.maxSuccs ++ " outgoing edges"
  | edgeNotFound source target => "no edge from " ++ source.text ++ " to " ++ target.text
  | entryHasPreds id count =>
    "entry block " ++ id.text ++ " has " ++ Nat.repr count ++ " incoming edges, expected none"
  | malformedBlock block defect =>
    "malformed block " ++ block.id.text ++ ": " ++ defect.message ++ "\n" ++ block.text

end ClassLang.Graph
