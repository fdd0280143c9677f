/-
# Linear code

Written in order, each block gives its label and its instructions. Where control
goes on to a block that does not come next, an explicit jump follows.
-/

import ClassLang.Graph.Order

namespace ClassLang.Graph

open ClassLang.Code

/-- An item of linear code. -/
inductive StreamItem where
  | label (id : BlockId)
  | instruction (code : Instruction)
  | jump (target : BlockId)
  deriving DecidableEq, Repr

/-- The written form of an item. -/
def StreamItem.text : StreamItem → String
  | label id => id.text ++ ":"
  | instruction code => "    " ++ code.text
  | jump target => "    goto " ++ target.text ++ ";"

/-- The jump after a block, if the block where control goes on is not the next. -/
def Block.jumpUnless (block : Block) (next : Option BlockId) : List StreamItem :=
  match block.fallThrough? with
  | some target => if next = some target then [] else [.jump target]
  | none => []

/-- The items of one block. -/
def Block.items (block : Block) (next : Option BlockId) : List StreamItem :=
  .label block.id :: block.instructions.map .instruction ++ block.jumpUnless next

/-- The items of the blocks in order. -/
def emitBlocks (graph : Graph) : List BlockId → List StreamItem
  | [] => []
  | id :: ids =>
    match graph.block? id with
    | some block => block.items ids.head? ++ emitBlocks graph ids
    | none => emitBlocks graph ids

/-- The linear code from an entry. -/
def emit (graph : Graph) (entry : BlockId) : Except GraphError (List StreamItem) × Graph :=
  match linearize graph entry with
  | (.ok order, graph) => (.ok (emitBlocks graph order), graph)
  | (.error e, graph) => (.error e, graph)

/-- The written form of linear code, one item a line. -/
def streamText (items : List StreamItem) : String :=
  "\n".intercalate (items.map StreamItem.text)

/-- The written form of the linear code from an entry. -/
def render (graph : Graph) (entry : BlockId) : Except GraphError String × Graph :=
  match emit graph entry with
  | (.ok items, graph) => (.ok (streamText items), graph)
  | (.error e, graph) => (.error e, graph)

end ClassLang.Graph
