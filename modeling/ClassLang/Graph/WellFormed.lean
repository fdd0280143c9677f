/-
# Structure of blocks

The number of outgoing edges of a block follows from how it ends, and a branch
goes to exactly its successors. Along edges the loop depth changes by at most
one, and on each side of a block at most one neighbour has another depth.
-/

import ClassLang.Graph.Basic

namespace ClassLang.Graph

open ClassLang.Code

/-- Two block numbers, the lower one first. -/
def sortedPair (first second : BlockId) : BlockId × BlockId :=
  if first.toNat ≤ second.toNat then (first, second) else (second, first)

/-- The defect in the outgoing edges of a block. Which of the two edges of a branch comes
first does not matter. -/
def Block.exitDefect? (block : Block) : Option BlockDefect :=
  let count := block.succs.length
  match block.last? with
  | none => if count = 1 then none else some (.emptyBlock count)
  | some (.branch _ _ _ onTrue onFalse) =>
    match block.succs with
    | [first, second] =>
      if sortedPair onTrue onFalse = sortedPair first second then none
      else some (.branchTargets onTrue onFalse)
    | _ => some (.branchCount count)
  | some (.ret _) => if count ≤ 1 then none else some (.returnCount count)
  | some _ => if count = 1 then none else some (.plainCount count)

/-- The distance between two depths. -/
def depthDistance (depth other : Nat) : Nat :=
  (depth - other) + (other - depth)

/-- The loop depth of a block, if the graph has it. -/
def loopDepth? (graph : Graph) (id : BlockId) : Option Nat :=
  (graph.block? id).map Block.loopDepth

/-- Examine the neighbours on one side in order. `changes` counts those before
that have another loop depth. -/
def checkDepths (graph : Graph) (block : Block) (side : Side) (changes : Nat) :
    List BlockId → Except GraphError Unit
  | [] =>
    if 1 < changes then .error (.malformedBlock block (.depthChanges side changes)) else .ok ()
  | id :: ids =>
    match loopDepth? graph id with
    | none => .error (.unknownBlock id)
    | some depth =>
      let gap := depthDistance depth block.loopDepth
      if 1 < gap then .error (.malformedBlock block (.depthGap side id gap))
      else checkDepths graph block side (changes + gap) ids

/-- Check one block of a graph. -/
def check (graph : Graph) (id : BlockId) : Except GraphError Unit :=
  match graph.block? id with
  | none => .error (.unknownBlock id)
  | some block =>
    match block.exitDefect? with
    | some defect => .error (.malformedBlock block defect)
    | none => do
      checkDepths graph block .pred 0 block.preds
      checkDepths graph block .succ 0 block.succs

/-- Check all blocks in order, up to the first that fails. -/
def checkAll (graph : Graph) : Except GraphError Unit :=
  graph.blocks.forM fun block => check graph block.id

end ClassLang.Graph
