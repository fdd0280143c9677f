/-
# Graphs made by operations

Whatever operations are performed on a graph, and in whatever order, some facts
about its blocks always hold: a block bears its own number, its edges end at
blocks of the graph, a branch stands only at the end of its code, and a
remembered order is the one that a search would find now. This module says what
it is to perform operations and carries these facts through every one of them.
-/

import ClassLang.Graph.Stream
import ClassLang.Proofs.Graph.Traversal

namespace ClassLang.Code.BlockId

theorem toNat_inj {id other : BlockId} : id.toNat = other.toNat ↔ id = other := by
  constructor
  · intro hnat
    rw [← ofNat_toNat id, ← ofNat_toNat other, hnat]
  · rintro rfl
    rfl

end ClassLang.Code.BlockId

namespace ClassLang.Graph

open ClassLang.Code

/-! ## Performing operations -/

/-- An operation on a graph. -/
inductive Action where
  | newBlock (line : Nat)
  | append (id : BlockId) (instruction : Instruction)
  | addEdge (source target : BlockId)
  | removeEdge (source target : BlockId)
  | editBlock (id : BlockId) (edit : BlockEdit)
  | linearize (entry : BlockId)
  | emit (entry : BlockId)
  | render (entry : BlockId)
  deriving DecidableEq, Repr

/-- The graph after an operation, whether or not the operation was refused. -/
def Action.perform (graph : Graph) : Action → Graph
  | newBlock line => (graph.newBlock line).2
  | append id instruction => (graph.append id instruction).2
  | addEdge source target => (graph.addEdge source target).2
  | removeEdge source target => (graph.removeEdge source target).2
  | editBlock id edit => (graph.editBlock id edit).2
  | linearize entry => (Graph.linearize graph entry).2
  | emit entry => (Graph.emit graph entry).2
  | render entry => (Graph.render graph entry).2

/-- The graph that operations make, starting without blocks. -/
def madeBy (actions : List Action) : Graph :=
  actions.foldl Action.perform {}

/-! ## Looking up blocks after a change -/

variable {graph : Graph}

theorem block?_modifyBlock (id other : BlockId) (change : Block → Block) :
    (graph.modifyBlock id change).block? other =
      if other = id then (graph.block? other).map change else graph.block? other := by
  unfold block? modifyBlock
  rw [List.getElem?_modify]
  by_cases hid : other = id
  · simp [hid]
  · have hnat : id.toNat ≠ other.toNat := fun hnat => hid (BlockId.toNat_inj.mp hnat).symm
    simp [hid, hnat]

theorem block?_forgetOrders (id : BlockId) :
    graph.forgetOrders.block? id =
      (graph.block? id).map fun block => { block with order := none } := by
  simp [block?, forgetOrders]

theorem block?_newBlock (line : Nat) (id : BlockId) :
    (graph.newBlock line).2.block? id =
      if id.toNat = graph.size then some { id := id, line := line }
      else (graph.block? id).map fun block => { block with order := none } := by
  unfold newBlock
  rw [block?_forgetOrders]
  unfold block? size
  split
  next hlast =>
    have hid : BlockId.ofNat graph.blocks.length = id := by rw [← hlast, BlockId.ofNat_toNat]
    simp [hlast, hid]
  next hother =>
    rw [List.getElem?_append]
    split
    · rfl
    · have hpast : graph.blocks.length < id.toNat := by omega
      simp [Nat.le_of_lt hpast, Nat.sub_ne_zero_of_lt hpast]

/-! ## The facts that always hold -/

/-- What holds of the block with a given number, where `known` says which numbers
are those of blocks. -/
structure Block.Sound (known : BlockId → Prop) (id : BlockId) (block : Block) : Prop where
  id_eq : block.id = id
  succs_known : ∀ target ∈ block.succs, known target
  branch_last : ∀ code ∈ block.instructions.dropLast, code.operation.isBranch = false

/-- Every block of a graph is sound. -/
def Sound (graph : Graph) : Prop :=
  ∀ id block, graph.block? id = some block →
    block.Sound (fun target => (graph.block? target).isSome) id

/-- Every remembered order is the one that a search finds now. -/
def Remembers (graph : Graph) : Prop :=
  ∀ id block order, graph.block? id = some block → block.order = some order →
    order = orderFrom graph id

/-- No order is remembered. -/
def Forgetful (graph : Graph) : Prop :=
  ∀ id block, graph.block? id = some block → block.order = none

theorem Forgetful.remembers (hforgetful : Forgetful graph) : Remembers graph := by
  intro id block order hblock horder
  simp [hforgetful id block hblock] at horder

theorem forgetful_forgetOrders : Forgetful graph.forgetOrders := by
  intro id block hblock
  rw [block?_forgetOrders, Option.map_eq_some_iff] at hblock
  obtain ⟨old, _, rfl⟩ := hblock
  rfl

theorem forgetful_modifyBlock (hforgetful : Forgetful graph) (id : BlockId)
    {change : Block → Block} (hchange : ∀ block, (change block).order = block.order) :
    Forgetful (graph.modifyBlock id change) := by
  intro other block hblock
  rw [block?_modifyBlock] at hblock
  split at hblock
  · obtain ⟨old, hold, rfl⟩ := Option.map_eq_some_iff.mp hblock
    rw [hchange, hforgetful other old hold]
  · exact hforgetful other block hblock

/-- Changing a block does not change which blocks there are. -/
theorem isSome_block?_modifyBlock (id other : BlockId) (change : Block → Block) :
    ((graph.modifyBlock id change).block? other).isSome = (graph.block? other).isSome := by
  rw [block?_modifyBlock]
  split <;> simp

theorem isSome_block?_forgetOrders (id : BlockId) :
    (graph.forgetOrders.block? id).isSome = (graph.block? id).isSome := by
  simp [block?_forgetOrders]

theorem sound_forgetOrders (hsound : Sound graph) : Sound graph.forgetOrders := by
  intro id block hblock
  rw [block?_forgetOrders] at hblock
  obtain ⟨old, hold, rfl⟩ := Option.map_eq_some_iff.mp hblock
  have hblock := hsound id old hold
  simp only [isSome_block?_forgetOrders]
  exact ⟨hblock.id_eq, hblock.succs_known, hblock.branch_last⟩

/-- A change to one block keeps a graph sound if it keeps that block sound. -/
theorem sound_modifyBlock (hsound : Sound graph) {id : BlockId} {change : Block → Block}
    (hchange : ∀ block, graph.block? id = some block →
      block.Sound (fun target => (graph.block? target).isSome) id →
      (change block).Sound (fun target => (graph.block? target).isSome) id) :
    Sound (graph.modifyBlock id change) := by
  intro other block hblock
  simp only [isSome_block?_modifyBlock]
  rw [block?_modifyBlock] at hblock
  split at hblock
  next hid =>
    subst hid
    obtain ⟨old, hold, rfl⟩ := Option.map_eq_some_iff.mp hblock
    exact hchange old hold (hsound other old hold)
  next => exact hsound other block hblock

/-- A graph as operations leave it: its blocks are sound, and the orders that it
remembers are right. -/
structure Coherent (graph : Graph) : Prop where
  sound : Sound graph
  remembers : Remembers graph

/-- Changes that also drop all orders only have to keep the blocks sound. -/
theorem Coherent.of_forgetful (hsound : Sound graph) (hforgetful : Forgetful graph) :
    Coherent graph :=
  ⟨hsound, hforgetful.remembers⟩

theorem Coherent.edgesKnown (hgraph : Coherent graph) : EdgesKnown graph := by
  rintro source target ⟨block, hblock, htarget⟩
  exact (hgraph.sound source block hblock).succs_known target htarget

theorem Coherent.forgetOrders (hgraph : Coherent graph) : Coherent graph.forgetOrders :=
  .of_forgetful (sound_forgetOrders hgraph.sound) forgetful_forgetOrders

theorem coherent_empty : Coherent {} := by
  constructor
  · intro id block hblock
    simp [block?] at hblock
  · intro id block order hblock
    simp [block?] at hblock

/-! ## One operation -/

/-- A block without a branch at its end has none at all. -/
theorem Block.isBranch_eq_false_of_not_isSealed {block : Block}
    (hlast : ∀ code ∈ block.instructions.dropLast, code.operation.isBranch = false)
    (hopen : block.isSealed = false) :
    ∀ code ∈ block.instructions, code.operation.isBranch = false := by
  intro code hcode
  rcases List.eq_nil_or_concat block.instructions with hnil | ⟨front, last, hfront⟩
  · simp [hnil] at hcode
  · rw [List.concat_eq_append] at hfront
    rw [hfront, List.dropLast_concat] at hlast
    rw [hfront, List.mem_append, List.mem_singleton] at hcode
    rcases hcode with hcode | rfl
    · exact hlast code hcode
    · simpa [Block.isSealed, Block.last?, hfront] using hopen

theorem coherent_newBlock (hgraph : Coherent graph) (line : Nat) :
    Coherent (graph.newBlock line).2 := by
  have hknown : ∀ target, (graph.block? target).isSome →
      ((graph.newBlock line).2.block? target).isSome := by
    intro target htarget
    rw [block?_newBlock]
    split
    · rfl
    · simpa using htarget
  refine .of_forgetful ?_ forgetful_forgetOrders
  intro id block hblock
  rw [block?_newBlock] at hblock
  split at hblock
  · obtain rfl := Option.some.inj hblock
    exact ⟨rfl, by simp, by simp⟩
  · obtain ⟨old, hold, rfl⟩ := Option.map_eq_some_iff.mp hblock
    have hsound := hgraph.sound id old hold
    exact ⟨hsound.id_eq, fun target htarget => hknown target (hsound.succs_known target htarget),
      hsound.branch_last⟩

theorem coherent_editBlock (hgraph : Coherent graph) (id : BlockId) (edit : BlockEdit) :
    Coherent (graph.editBlock id edit).2 := by
  unfold editBlock
  dsimp only
  split
  · exact hgraph.forgetOrders
  · refine .of_forgetful (sound_modifyBlock hgraph.forgetOrders.sound ?_)
      (forgetful_modifyBlock forgetful_forgetOrders id fun block => by cases edit <;> rfl)
    intro block _ hsound
    cases edit <;> exact ⟨hsound.id_eq, hsound.succs_known, hsound.branch_last⟩

theorem coherent_append (hgraph : Coherent graph) (id : BlockId) (instruction : Instruction) :
    Coherent (graph.append id instruction).2 := by
  unfold append
  dsimp only
  split
  · exact hgraph.forgetOrders
  next found hfound =>
    split
    · exact hgraph.forgetOrders
    next hopen =>
      refine .of_forgetful (sound_modifyBlock hgraph.forgetOrders.sound ?_)
        (forgetful_modifyBlock forgetful_forgetOrders id fun block => rfl)
      intro block hblock hsound
      obtain rfl := Option.some.inj (hfound.symm.trans hblock)
      refine ⟨hsound.id_eq, hsound.succs_known, ?_⟩
      rw [List.dropLast_concat]
      exact Block.isBranch_eq_false_of_not_isSealed hsound.branch_last (by simpa using hopen)

/-- Both ends of an edge are changed together, which may be one block: the successors
of its source and the predecessors of its target. -/
def changeEnds (graph : Graph) (source target : BlockId)
    (changeSuccs changePreds : List BlockId → List BlockId) : Graph :=
  (graph.forgetOrders.modifyBlock source fun block =>
    { block with succs := changeSuccs block.succs }).modifyBlock target fun block =>
    { block with preds := changePreds block.preds }

section ChangeEnds

variable {source target : BlockId} (changeSuccs changePreds : List BlockId → List BlockId)

theorem forgetful_changeEnds :
    Forgetful (changeEnds graph source target changeSuccs changePreds) := by
  apply forgetful_modifyBlock
  · exact forgetful_modifyBlock forgetful_forgetOrders source fun _ => rfl
  · exact fun _ => rfl

theorem coherent_changeEnds (hgraph : Coherent graph)
    (hsuccs : ∀ succs, ∀ succ ∈ changeSuccs succs,
      succ ∈ succs ∨ (graph.block? succ).isSome) :
    Coherent (changeEnds graph source target changeSuccs changePreds) := by
  refine .of_forgetful ?_ (forgetful_changeEnds changeSuccs changePreds)
  refine sound_modifyBlock (sound_modifyBlock hgraph.forgetOrders.sound ?_) ?_
  · intro block _ hsound
    refine ⟨hsound.id_eq, ?_, hsound.branch_last⟩
    intro succ hsucc
    rcases hsuccs block.succs succ hsucc with hold | hknown
    · exact hsound.succs_known succ hold
    · rwa [isSome_block?_forgetOrders]
  · intro block _ hsound
    exact ⟨hsound.id_eq, hsound.succs_known, hsound.branch_last⟩

end ChangeEnds

theorem coherent_addEdge (hgraph : Coherent graph) (source target : BlockId) :
    Coherent (graph.addEdge source target).2 := by
  unfold addEdge
  split
  · exact hgraph
  · exact hgraph
  next sourceBlock targetBlock hsource htarget =>
    split
    · exact hgraph
    split
    · exact hgraph
    refine coherent_changeEnds (· ++ [target]) (· ++ [source]) hgraph fun succs succ hsucc => ?_
    rcases List.mem_append.mp hsucc with hsucc | hsucc
    · exact Or.inl hsucc
    · obtain rfl := List.mem_singleton.mp hsucc
      exact Or.inr (by simp [htarget])

theorem coherent_removeEdge (hgraph : Coherent graph) (source target : BlockId) :
    Coherent (graph.removeEdge source target).2 := by
  unfold removeEdge
  split
  · exact hgraph
  · exact hgraph
  split
  · exact coherent_changeEnds (·.erase target) (·.erase source) hgraph
      fun succs succ hsucc => Or.inl (List.mem_of_mem_erase hsucc)
  · exact hgraph

/-- Remembering an order does not change what a search finds. -/
theorem orderFrom_modifyBlock_order (id entry : BlockId) (order : Option (List BlockId)) :
    orderFrom (graph.modifyBlock id fun block => { block with order := order }) entry =
      orderFrom graph entry := by
  apply orderFrom_congr
  intro other
  rw [block?_modifyBlock]
  split
  · rw [Option.map_map]
    rfl
  · rfl

theorem coherent_linearize (hgraph : Coherent graph) (entry : BlockId) :
    Coherent (linearize graph entry).2 := by
  unfold linearize
  split
  · exact hgraph
  split
  · exact hgraph
  split
  · exact hgraph
  · constructor
    · refine sound_modifyBlock hgraph.sound fun block _ hsound => ?_
      exact ⟨hsound.id_eq, hsound.succs_known, hsound.branch_last⟩
    · intro id block order hblock horder
      rw [orderFrom_modifyBlock_order]
      rw [block?_modifyBlock] at hblock
      split at hblock
      next hid =>
        obtain ⟨old, _, rfl⟩ := Option.map_eq_some_iff.mp hblock
        rw [hid]
        exact (Option.some.inj horder).symm
      next => exact hgraph.remembers id block order hblock horder

/-- From an entry without predecessors comes the order of a search, whether or not it
was remembered, and at most it is remembered then. -/
theorem linearize_eq_ok (hgraph : Coherent graph) {entry : BlockId} {block : Block}
    (hentry : graph.block? entry = some block) (hpreds : block.preds = []) :
    ∃ after, linearize graph entry = (.ok (orderFrom graph entry), after) ∧
      (after = graph ∨
        ∃ memo, after = graph.modifyBlock entry fun block => { block with order := memo }) := by
  simp only [linearize, hentry, hpreds, ne_eq, not_true_eq_false, if_false]
  cases horder : block.order with
  | some order =>
      rw [← hgraph.remembers entry block order hentry horder]
      exact ⟨graph, rfl, .inl rfl⟩
  | none => exact ⟨_, rfl, .inr ⟨_, rfl⟩⟩

/-- Writing out the code of a graph leaves behind what finding the order does. -/
theorem emit_snd (entry : BlockId) : (emit graph entry).2 = (linearize graph entry).2 := by
  unfold emit
  split <;> simp [*]

theorem render_snd (entry : BlockId) : (render graph entry).2 = (linearize graph entry).2 := by
  rw [← emit_snd]
  unfold render
  split <;> simp [*]

/-! ## Any number of operations -/

theorem coherent_perform (hgraph : Coherent graph) (action : Action) :
    Coherent (action.perform graph) := by
  cases action with
  | newBlock line => exact coherent_newBlock hgraph line
  | append id instruction => exact coherent_append hgraph id instruction
  | addEdge source target => exact coherent_addEdge hgraph source target
  | removeEdge source target => exact coherent_removeEdge hgraph source target
  | editBlock id edit => exact coherent_editBlock hgraph id edit
  | linearize entry => exact coherent_linearize hgraph entry
  | emit entry =>
      rw [Action.perform, emit_snd]
      exact coherent_linearize hgraph entry
  | render entry =>
      rw [Action.perform, render_snd]
      exact coherent_linearize hgraph entry

theorem coherent_foldl_perform (actions : List Action) (hgraph : Coherent graph) :
    Coherent (actions.foldl Action.perform graph) := by
  induction actions generalizing graph with
  | nil => exact hgraph
  | cons action actions ih => exact ih (coherent_perform hgraph action)

/-- Every graph that operations make is coherent. -/
theorem coherent_madeBy (actions : List Action) : Coherent (madeBy actions) :=
  coherent_foldl_perform actions coherent_empty

end ClassLang.Graph
