/-
# Control-flow graphs

A graph is a list of blocks, numbered by their places in it. Edges are recorded
at both ends, in the order in which they were added, and an edge may be there
more than once. Operations return the graph that results even when they are
refused, since also a refused operation may drop remembered orders.
-/

import ClassLang.Graph.Error

namespace ClassLang

open ClassLang.Code ClassLang.Graph

/-- A control-flow graph. -/
structure Graph where
  blocks : List Block := []
  deriving DecidableEq, Repr

namespace Graph

/-- The number of blocks. -/
def size (graph : Graph) : Nat :=
  graph.blocks.length

/-- The block with this number. -/
def block? (graph : Graph) (id : BlockId) : Option Block :=
  graph.blocks[id.toNat]?

/-- Change the block with this number. -/
def modifyBlock (graph : Graph) (id : BlockId) (change : Block → Block) : Graph :=
  ⟨graph.blocks.modify id.toNat change⟩

/-- Drop all remembered orders. -/
def forgetOrders (graph : Graph) : Graph :=
  ⟨graph.blocks.map fun block => { block with order := none }⟩

/-- Add an empty block, whose number is the next that is free. -/
def newBlock (graph : Graph) (line : Nat) : BlockId × Graph :=
  let id := BlockId.ofNat graph.size
  let extended : Graph := ⟨graph.blocks ++ [{ id := id, line := line }]⟩
  (id, extended.forgetOrders)

/-- Change the notes of a block. -/
def editBlock (graph : Graph) (id : BlockId) (edit : BlockEdit) :
    Except GraphError Unit × Graph :=
  let graph := graph.forgetOrders
  match graph.block? id with
  | none => (.error (.unknownBlock id), graph)
  | some _ => (.ok (), graph.modifyBlock id edit.apply)

/-- Append an instruction to a block that is not sealed. -/
def append (graph : Graph) (id : BlockId) (instruction : Instruction) :
    Except GraphError Unit × Graph :=
  let graph := graph.forgetOrders
  match graph.block? id with
  | none => (.error (.unknownBlock id), graph)
  | some block =>
    if block.isSealed then (.error (.blockSealed id), graph)
    else
      (.ok (), graph.modifyBlock id fun block =>
        { block with instructions := block.instructions ++ [instruction] })

/-- Add an edge. Both ends must exist and have room for it. -/
def addEdge (graph : Graph) (source target : BlockId) : Except GraphError Unit × Graph :=
  match graph.block? source, graph.block? target with
  | none, _ => (.error (.unknownBlock source), graph)
  | some _, none => (.error (.unknownBlock target), graph)
  | some sourceBlock, some targetBlock =>
    if Block.maxSuccs ≤ sourceBlock.succs.length then (.error (.tooManySuccs source), graph)
    else if Block.maxPreds ≤ targetBlock.preds.length then (.error (.tooManyPreds target), graph)
    else
      let graph := graph.forgetOrders
      let graph := graph.modifyBlock source fun block =>
        { block with succs := block.succs ++ [target] }
      let graph := graph.modifyBlock target fun block =>
        { block with preds := block.preds ++ [source] }
      (.ok (), graph)

/-- Remove one edge, the one added first if it is there several times. -/
def removeEdge (graph : Graph) (source target : BlockId) : Except GraphError Unit × Graph :=
  match graph.block? source, graph.block? target with
  | none, _ => (.error (.unknownBlock source), graph)
  | some _, none => (.error (.unknownBlock target), graph)
  | some sourceBlock, some targetBlock =>
    if target ∈ sourceBlock.succs ∧ source ∈ targetBlock.preds then
      let graph := graph.forgetOrders
      let graph := graph.modifyBlock source fun block =>
        { block with succs := block.succs.erase target }
      let graph := graph.modifyBlock target fun block =>
        { block with preds := block.preds.erase source }
      (.ok (), graph)
    else (.error (.edgeNotFound source target), graph)

end Graph

end ClassLang
