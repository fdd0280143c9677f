/-
# Edges at both ends

An edge is recorded twice, among the successors of the block that it leaves and
among the predecessors of the block that it enters. Operations change the two
records one after the other, so the records could drift apart. They never do: what
an operation does to edges is to leave them all, to add one at both ends, or to
remove one at both ends. With the facts about single blocks this gives everything
that operations rely on when they are performed one after the other.
-/

import ClassLang.Proofs.Graph.Coherence

namespace ClassLang.Graph

open ClassLang.Code

/-! ## Edges by number -/

/-- The blocks on one side of a block. -/
def Block.neighbours (block : Block) : Side → List BlockId
  | .pred => block.preds
  | .succ => block.succs

/-- The blocks on one side of the block with this number, and none if there is no
such block. -/
def neighbours (graph : Graph) (side : Side) (id : BlockId) : List BlockId :=
  (graph.block? id).elim [] fun block => block.neighbours side

variable {graph : Graph} {side : Side} {id : BlockId}

theorem neighbours_of_block? {block : Block} (hblock : graph.block? id = some block) :
    graph.neighbours side id = block.neighbours side := by
  rw [neighbours, hblock, Option.elim_some]

theorem isSome_of_mem_neighbours {other : BlockId} (hother : other ∈ graph.neighbours side id) :
    (graph.block? id).isSome := by
  unfold neighbours at hother
  cases hblock : graph.block? id with
  | none =>
      rw [hblock] at hother
      cases hother
  | some block => rfl

theorem neighbours_forgetOrders :
    graph.forgetOrders.neighbours side id = graph.neighbours side id := by
  rw [neighbours, block?_forgetOrders, neighbours]
  cases graph.block? id with
  | none => rfl
  | some block => cases side <;> rfl

/-- A new block has no edges. -/
theorem neighbours_newBlock (line : Nat) :
    (graph.newBlock line).2.neighbours side id = graph.neighbours side id := by
  rw [neighbours, block?_newBlock, neighbours]
  split
  next hlast =>
    have hnone : graph.block? id = none := List.getElem?_eq_none (Nat.le_of_eq hlast.symm)
    rw [hnone]
    cases side <;> rfl
  next =>
    cases graph.block? id with
    | none => rfl
    | some block => cases side <;> rfl

section ModifyBlock

variable {other : BlockId} {change : Block → Block}

/-- A change to a block that leaves one of its sides alone. -/
theorem neighbours_modifyBlock_of_eq
    (hchange : ∀ block, (change block).neighbours side = block.neighbours side) :
    (graph.modifyBlock other change).neighbours side id = graph.neighbours side id := by
  rw [neighbours, block?_modifyBlock, neighbours]
  split
  · cases graph.block? id with
    | none => rfl
    | some block => exact hchange block
  · rfl

/-- A change to one side of a block of the graph. -/
theorem neighbours_modifyBlock (edit : List BlockId → List BlockId)
    (hchange : ∀ block, (change block).neighbours side = edit (block.neighbours side))
    (hknown : (graph.block? other).isSome) :
    (graph.modifyBlock other change).neighbours side id =
      if id = other then edit (graph.neighbours side id) else graph.neighbours side id := by
  rw [neighbours, block?_modifyBlock, neighbours]
  split
  next hid =>
    subst hid
    obtain ⟨block, hblock⟩ := Option.isSome_iff_exists.mp hknown
    rw [hblock]
    exact hchange block
  next => rfl

end ModifyBlock

/-! ## What one operation does -/

/-- What an operation does to the edges and the remembered orders of a graph: nothing
at all, only forget the orders, remember one at a block without predecessors, or
forget the orders and add or remove an edge at both ends. -/
inductive Effect (before : Graph) : Graph → Prop where
  | refused : Effect before before
  | forgotten {after : Graph} (hforgetful : Forgetful after)
      (hsame : ∀ side id, after.neighbours side id = before.neighbours side id) :
      Effect before after
  | remembered (entry : BlockId) (order : List BlockId)
      (hentry : before.neighbours .pred entry = []) :
      Effect before (before.modifyBlock entry fun block => { block with order := some order })
  | added {after : Graph} (source target : BlockId) (hforgetful : Forgetful after)
      (hsourceRoom : (before.neighbours .succ source).length < Block.maxSuccs)
      (htargetRoom : (before.neighbours .pred target).length < Block.maxPreds)
      (hsuccs : ∀ id, after.neighbours .succ id =
        if id = source then before.neighbours .succ id ++ [target]
        else before.neighbours .succ id)
      (hpreds : ∀ id, after.neighbours .pred id =
        if id = target then before.neighbours .pred id ++ [source]
        else before.neighbours .pred id) :
      Effect before after
  | removed {after : Graph} (source target : BlockId) (hforgetful : Forgetful after)
      (hsuccs : ∀ id, after.neighbours .succ id =
        if id = source then (before.neighbours .succ id).erase target
        else before.neighbours .succ id)
      (hpreds : ∀ id, after.neighbours .pred id =
        if id = target then (before.neighbours .pred id).erase source
        else before.neighbours .pred id) :
      Effect before after

theorem effect_forgetOrders : Effect graph graph.forgetOrders :=
  .forgotten forgetful_forgetOrders fun _ _ => neighbours_forgetOrders

/-- A change to a block that is none to its edges, once the orders are forgotten. -/
theorem effect_modifyBlock (id : BlockId) {change : Block → Block}
    (horder : ∀ block, (change block).order = block.order)
    (hchange : ∀ side block, (change block).neighbours side = block.neighbours side) :
    Effect graph (graph.forgetOrders.modifyBlock id change) := by
  apply Effect.forgotten
  · exact forgetful_modifyBlock forgetful_forgetOrders id horder
  · intro side other
    rw [neighbours_modifyBlock_of_eq (hchange side), neighbours_forgetOrders]

section ChangeEnds

variable {source target : BlockId} (changeSuccs changePreds : List BlockId → List BlockId)

theorem succs_changeEnds (hsource : (graph.block? source).isSome) :
    (changeEnds graph source target changeSuccs changePreds).neighbours .succ id =
      if id = source then changeSuccs (graph.neighbours .succ id)
      else graph.neighbours .succ id := by
  rw [changeEnds, neighbours_modifyBlock_of_eq, neighbours_modifyBlock changeSuccs,
    neighbours_forgetOrders]
  · exact fun _ => rfl
  · rwa [isSome_block?_forgetOrders]
  · exact fun _ => rfl

theorem preds_changeEnds (htarget : (graph.block? target).isSome) :
    (changeEnds graph source target changeSuccs changePreds).neighbours .pred id =
      if id = target then changePreds (graph.neighbours .pred id)
      else graph.neighbours .pred id := by
  rw [changeEnds, neighbours_modifyBlock changePreds, neighbours_modifyBlock_of_eq,
    neighbours_forgetOrders]
  · exact fun _ => rfl
  · exact fun _ => rfl
  · rwa [isSome_block?_modifyBlock, isSome_block?_forgetOrders]

end ChangeEnds

theorem effect_append (id : BlockId) (instruction : Instruction) :
    Effect graph (graph.append id instruction).2 := by
  unfold append
  dsimp only
  split
  · exact effect_forgetOrders
  · split
    · exact effect_forgetOrders
    · apply effect_modifyBlock
      · exact fun _ => rfl
      · intro side block
        cases side <;> rfl

theorem effect_editBlock (id : BlockId) (edit : BlockEdit) :
    Effect graph (graph.editBlock id edit).2 := by
  unfold editBlock
  dsimp only
  split
  · exact effect_forgetOrders
  · apply effect_modifyBlock
    · intro block
      cases edit <;> rfl
    · intro side block
      cases edit <;> cases side <;> rfl

theorem effect_addEdge (source target : BlockId) :
    Effect graph (graph.addEdge source target).2 := by
  unfold addEdge
  split
  · exact .refused
  · exact .refused
  next sourceBlock targetBlock hsource htarget =>
    split
    · exact .refused
    next hsourceRoom =>
      split
      · exact .refused
      next htargetRoom =>
        apply Effect.added source target
        · exact forgetful_changeEnds (· ++ [target]) (· ++ [source])
        · rw [neighbours_of_block? hsource]
          exact Nat.lt_of_not_le hsourceRoom
        · rw [neighbours_of_block? htarget]
          exact Nat.lt_of_not_le htargetRoom
        · intro id
          exact succs_changeEnds (· ++ [target]) (· ++ [source]) (Option.isSome_of_mem hsource)
        · intro id
          exact preds_changeEnds (· ++ [target]) (· ++ [source]) (Option.isSome_of_mem htarget)

theorem effect_removeEdge (source target : BlockId) :
    Effect graph (graph.removeEdge source target).2 := by
  unfold removeEdge
  split
  · exact .refused
  · exact .refused
  next sourceBlock targetBlock hsource htarget =>
    split
    · apply Effect.removed source target
      · exact forgetful_changeEnds (·.erase target) (·.erase source)
      · intro id
        exact succs_changeEnds (·.erase target) (·.erase source) (Option.isSome_of_mem hsource)
      · intro id
        exact preds_changeEnds (·.erase target) (·.erase source) (Option.isSome_of_mem htarget)
    · exact .refused

theorem effect_linearize (entry : BlockId) : Effect graph (linearize graph entry).2 := by
  unfold linearize
  split
  · exact .refused
  next block hblock =>
    split
    · exact .refused
    next hpreds =>
      split
      · exact .refused
      · apply Effect.remembered
        rw [neighbours_of_block? hblock]
        exact Decidable.not_not.mp hpreds

theorem effect_perform (action : Action) : Effect graph (action.perform graph) := by
  cases action with
  | newBlock line => exact .forgotten forgetful_forgetOrders fun _ _ => neighbours_newBlock line
  | append id instruction => exact effect_append id instruction
  | addEdge source target => exact effect_addEdge source target
  | removeEdge source target => exact effect_removeEdge source target
  | editBlock id edit => exact effect_editBlock id edit
  | linearize entry => exact effect_linearize entry
  | emit entry =>
      rw [Action.perform, emit_snd]
      exact effect_linearize entry
  | render entry =>
      rw [Action.perform, render_snd]
      exact effect_linearize entry

/-! ## Mirrored and bounded edges -/

/-- What holds of the edges of a graph: each is recorded as often at one end as at
the other, and no block has more of them than there is room for. -/
structure EdgesBalanced (graph : Graph) : Prop where
  mirrored : ∀ source target,
    (graph.neighbours .succ source).count target = (graph.neighbours .pred target).count source
  succs_le : ∀ id, (graph.neighbours .succ id).length ≤ Block.maxSuccs
  preds_le : ∀ id, (graph.neighbours .pred id).length ≤ Block.maxPreds

theorem EdgesBalanced.of_same {after : Graph} (hedges : EdgesBalanced graph)
    (hsame : ∀ side id, after.neighbours side id = graph.neighbours side id) :
    EdgesBalanced after where
  mirrored source target := by
    rw [hsame, hsame, hedges.mirrored]
  succs_le id := by
    rw [hsame]
    exact hedges.succs_le id
  preds_le id := by
    rw [hsame]
    exact hedges.preds_le id

/-- An edge that is recorded at one end has its other end in the graph, since it is
recorded there as well. -/
theorem EdgesBalanced.isSome_of_mem (hedges : EdgesBalanced graph) {other : BlockId}
    (hother : other ∈ graph.neighbours side id) : (graph.block? other).isSome := by
  have hpos := List.count_pos_iff.mpr hother
  cases side with
  | succ =>
      rw [hedges.mirrored] at hpos
      exact isSome_of_mem_neighbours (List.count_pos_iff.mp hpos)
  | pred =>
      rw [← hedges.mirrored] at hpos
      exact isSome_of_mem_neighbours (List.count_pos_iff.mp hpos)

theorem count_ite_append {holds : Prop} [Decidable holds] (ids : List BlockId)
    (new id : BlockId) :
    (if holds then ids ++ [new] else ids).count id =
      ids.count id + if holds ∧ id = new then 1 else 0 := by
  by_cases hholds : holds
  · simp [hholds, List.count_append, List.count_singleton, @eq_comm _ id new]
  · simp [hholds]

theorem count_ite_erase {holds : Prop} [Decidable holds] (ids : List BlockId)
    (old id : BlockId) :
    (if holds then ids.erase old else ids).count id =
      ids.count id - if holds ∧ id = old then 1 else 0 := by
  by_cases hholds : holds
  · simp [hholds, List.count_erase, @eq_comm _ id old]
  · simp [hholds]

/-- Adding an edge at both ends, where there is room. -/
theorem EdgesBalanced.added {after : Graph} (hedges : EdgesBalanced graph)
    {source target : BlockId}
    (hsourceRoom : (graph.neighbours .succ source).length < Block.maxSuccs)
    (htargetRoom : (graph.neighbours .pred target).length < Block.maxPreds)
    (hsuccs : ∀ id, after.neighbours .succ id =
      if id = source then graph.neighbours .succ id ++ [target] else graph.neighbours .succ id)
    (hpreds : ∀ id, after.neighbours .pred id =
      if id = target then graph.neighbours .pred id ++ [source] else graph.neighbours .pred id) :
    EdgesBalanced after where
  mirrored first second := by
    simp only [hsuccs, hpreds, count_ite_append, hedges.mirrored, and_comm]
  succs_le id := by
    rw [hsuccs]
    split
    next hid =>
      rw [hid, List.length_append]
      exact hsourceRoom
    next => exact hedges.succs_le id
  preds_le id := by
    rw [hpreds]
    split
    next hid =>
      rw [hid, List.length_append]
      exact htargetRoom
    next => exact hedges.preds_le id

/-- Removing an edge at both ends. -/
theorem EdgesBalanced.removed {after : Graph} (hedges : EdgesBalanced graph)
    {source target : BlockId}
    (hsuccs : ∀ id, after.neighbours .succ id =
      if id = source then (graph.neighbours .succ id).erase target else graph.neighbours .succ id)
    (hpreds : ∀ id, after.neighbours .pred id =
      if id = target then (graph.neighbours .pred id).erase source
      else graph.neighbours .pred id) :
    EdgesBalanced after where
  mirrored first second := by
    simp only [hsuccs, hpreds, count_ite_erase, hedges.mirrored, and_comm]
  succs_le id := by
    rw [hsuccs]
    split
    · exact Nat.le_trans List.length_erase_le (hedges.succs_le id)
    · exact hedges.succs_le id
  preds_le id := by
    rw [hpreds]
    split
    · exact Nat.le_trans List.length_erase_le (hedges.preds_le id)
    · exact hedges.preds_le id

theorem Effect.balanced {after : Graph} (heffect : Effect graph after)
    (hedges : EdgesBalanced graph) : EdgesBalanced after := by
  cases heffect with
  | refused => exact hedges
  | forgotten _ hsame => exact hedges.of_same hsame
  | remembered entry order _ =>
      apply hedges.of_same
      intro side id
      apply neighbours_modifyBlock_of_eq
      cases side <;> exact fun _ => rfl
  | added _ _ _ hsourceRoom htargetRoom hsuccs hpreds =>
      exact hedges.added hsourceRoom htargetRoom hsuccs hpreds
  | removed _ _ _ hsuccs hpreds => exact hedges.removed hsuccs hpreds

/-! ## Orders at entries -/

/-- A block that remembers an order has no predecessors. -/
def OrdersAtEntries (graph : Graph) : Prop :=
  ∀ id block, graph.block? id = some block → block.order.isSome → block.preds = []

theorem Forgetful.ordersAtEntries (hforgetful : Forgetful graph) : OrdersAtEntries graph := by
  intro id block hblock horder
  rw [hforgetful id block hblock] at horder
  cases horder

theorem Effect.ordersAtEntries {after : Graph} (heffect : Effect graph after)
    (horders : OrdersAtEntries graph) : OrdersAtEntries after := by
  cases heffect with
  | refused => exact horders
  | forgotten hforgetful _ => exact hforgetful.ordersAtEntries
  | remembered entry order hentry =>
      intro id block hblock horder
      rw [block?_modifyBlock] at hblock
      split at hblock
      next hid =>
        subst hid
        obtain ⟨old, hold, rfl⟩ := Option.map_eq_some_iff.mp hblock
        rwa [neighbours_of_block? hold] at hentry
      next => exact horders id block hblock horder
  | added _ _ hforgetful => exact hforgetful.ordersAtEntries
  | removed _ _ hforgetful => exact hforgetful.ordersAtEntries

/-! ## Any number of operations -/

theorem balanced_foldl_perform (actions : List Action)
    (hgraph : EdgesBalanced graph ∧ OrdersAtEntries graph) :
    EdgesBalanced (actions.foldl Action.perform graph) ∧
      OrdersAtEntries (actions.foldl Action.perform graph) := by
  induction actions generalizing graph with
  | nil => exact hgraph
  | cons action actions ih =>
      have heffect := @effect_perform graph action
      exact ih ⟨heffect.balanced hgraph.1, heffect.ordersAtEntries hgraph.2⟩

theorem balanced_empty : EdgesBalanced {} where
  mirrored _ _ := rfl
  succs_le _ := Nat.zero_le _
  preds_le _ := Nat.zero_le _

theorem balanced_madeBy (actions : List Action) :
    EdgesBalanced (madeBy actions) ∧ OrdersAtEntries (madeBy actions) := by
  apply balanced_foldl_perform
  refine ⟨balanced_empty, ?_⟩
  intro id block hblock
  simp [block?] at hblock

/-! ## Numbers of blocks -/

/-- Whether an operation makes a new block. -/
def Action.isNewBlock : Action → Bool
  | newBlock _ => true
  | _ => false

@[simp]
theorem size_modifyBlock (id : BlockId) (change : Block → Block) :
    (graph.modifyBlock id change).size = graph.size := by
  simp [size, modifyBlock]

@[simp]
theorem size_forgetOrders : graph.forgetOrders.size = graph.size := by
  simp [size, forgetOrders]

theorem size_linearize (entry : BlockId) : (linearize graph entry).2.size = graph.size := by
  unfold linearize
  split
  · rfl
  · split
    · rfl
    · split
      · rfl
      · exact size_modifyBlock entry _

/-- Only a new block makes a graph larger. -/
theorem size_perform (action : Action) :
    (action.perform graph).size = graph.size + if action.isNewBlock then 1 else 0 := by
  cases action with
  | newBlock line => simp [Action.perform, Action.isNewBlock, newBlock, size, forgetOrders]
  | append id instruction =>
      show (graph.append id instruction).2.size = graph.size
      unfold append
      dsimp only
      split
      · exact size_forgetOrders
      · split <;> simp
  | addEdge source target =>
      show (graph.addEdge source target).2.size = graph.size
      unfold addEdge
      split
      · rfl
      · rfl
      · split
        · rfl
        · split <;> simp
  | removeEdge source target =>
      show (graph.removeEdge source target).2.size = graph.size
      unfold removeEdge
      split
      · rfl
      · rfl
      · split <;> simp
  | editBlock id edit =>
      show (graph.editBlock id edit).2.size = graph.size
      unfold editBlock
      dsimp only
      split <;> simp
  | linearize entry => exact size_linearize entry
  | emit entry =>
      rw [Action.perform, emit_snd]
      exact size_linearize entry
  | render entry =>
      rw [Action.perform, render_snd]
      exact size_linearize entry

theorem size_madeBy (actions : List Action) :
    (madeBy actions).size = actions.countP Action.isNewBlock := by
  have hrun : ∀ graph : Graph, (actions.foldl Action.perform graph).size =
      graph.size + actions.countP Action.isNewBlock := by
    induction actions with
    | nil => exact fun _ => rfl
    | cons action actions ih =>
        intro graph
        rw [List.foldl_cons, ih, size_perform, List.countP_cons]
        omega
  rw [madeBy, hrun]
  exact Nat.zero_add _

/-- As long as all places have a number, a block is found under its own. -/
theorem Coherent.block?_id (hgraph : Coherent graph) (hsize : graph.size ≤ UInt32.size)
    {index : Nat} {block : Block} (hblock : graph.blocks[index]? = some block) :
    block.id.toNat = index ∧ graph.block? block.id = some block := by
  have hindex : index < graph.size := (List.getElem?_eq_some_iff.mp hblock).1
  have hnat : (BlockId.ofNat index).toNat = index :=
    BlockId.toNat_ofNat (Nat.lt_of_lt_of_le hindex hsize)
  have hfound : graph.block? (.ofNat index) = some block := by
    rw [block?, hnat, hblock]
  have hid := (hgraph.sound _ _ hfound).id_eq
  exact ⟨by rw [hid, hnat], by rw [hid, hfound]⟩

/-! ## What operations rely on -/

/-- The form that a graph always has. -/
structure Represented (graph : Graph) : Prop where
  /-- A block bears the number of its place. -/
  id_eq : ∀ (index : Nat) (block : Block), graph.blocks[index]? = some block →
    block.id.toNat = index
  /-- Edges lead to blocks and come from blocks. -/
  known : ∀ block ∈ graph.blocks, ∀ id, id ∈ block.preds ∨ id ∈ block.succs →
    id.toNat < graph.size
  /-- Every edge is recorded as often at one end as at the other. -/
  mirrored : ∀ source ∈ graph.blocks, ∀ target ∈ graph.blocks,
    source.succs.count target.id = target.preds.count source.id
  succs_le : ∀ block ∈ graph.blocks, block.succs.length ≤ 2
  preds_le : ∀ block ∈ graph.blocks, block.preds.length ≤ 3
  /-- A branch is the last instruction of its block. -/
  branch_last : ∀ block ∈ graph.blocks, ∀ code ∈ block.instructions.dropLast,
    code.operation.isBranch = false
  /-- A remembered order is at a block without predecessors, and is the one that would
  be found there if none were remembered. -/
  orders : ∀ block ∈ graph.blocks, ∀ order, block.order = some order →
    block.preds = [] ∧ (linearize graph.forgetOrders block.id).1 = .ok order

/-- Without remembered orders, the order from a block without predecessors is searched. -/
theorem linearize_forgetOrders {block : Block} (hblock : graph.block? id = some block)
    (hpreds : block.preds = []) :
    (linearize graph.forgetOrders id).1 = .ok (orderFrom graph id) := by
  have hsame : orderFrom graph.forgetOrders id = orderFrom graph id := by
    apply orderFrom_congr
    intro other
    rw [block?_forgetOrders, Option.map_map]
    rfl
  simp [linearize, block?_forgetOrders, hblock, hpreds, hsame]

theorem Coherent.represented (hgraph : Coherent graph) (hedges : EdgesBalanced graph)
    (horders : OrdersAtEntries graph) (hsize : graph.size ≤ UInt32.size) :
    Represented graph := by
  have hfound {block : Block} (hblock : block ∈ graph.blocks) :
      graph.block? block.id = some block := by
    obtain ⟨index, hindex⟩ := List.mem_iff_getElem?.mp hblock
    exact (hgraph.block?_id hsize hindex).2
  have hside {block : Block} (hblock : block ∈ graph.blocks) (side : Side) :
      block.neighbours side = graph.neighbours side block.id :=
    (neighbours_of_block? (hfound hblock)).symm
  have hknown {block : Block} (hblock : block ∈ graph.blocks) (side : Side) {other : BlockId}
      (hother : other ∈ block.neighbours side) : other.toNat < graph.size := by
    rw [hside hblock] at hother
    have hsome := Option.eq_some_of_isSome (hedges.isSome_of_mem hother)
    exact (List.getElem?_eq_some_iff.mp hsome).1
  constructor
  · exact fun index block hblock => (hgraph.block?_id hsize hblock).1
  · intro block hblock other hother
    exact hother.elim (hknown hblock .pred) (hknown hblock .succ)
  · intro source hsource target htarget
    calc source.succs.count target.id
        = (graph.neighbours .succ source.id).count target.id := by rw [← hside hsource]; rfl
      _ = (graph.neighbours .pred target.id).count source.id := hedges.mirrored _ _
      _ = target.preds.count source.id := by rw [← hside htarget]; rfl
  · intro block hblock
    show (block.neighbours .succ).length ≤ Block.maxSuccs
    rw [hside hblock]
    exact hedges.succs_le block.id
  · intro block hblock
    show (block.neighbours .pred).length ≤ Block.maxPreds
    rw [hside hblock]
    exact hedges.preds_le block.id
  · exact fun block hblock => (hgraph.sound _ _ (hfound hblock)).branch_last
  · intro block hblock order horder
    have hpreds := horders _ _ (hfound hblock) (by rw [horder]; rfl)
    refine ⟨hpreds, ?_⟩
    rw [linearize_forgetOrders (hfound hblock) hpreds]
    rw [hgraph.remembers _ _ order (hfound hblock) horder]

/-- Every graph that operations make, refused ones among them, has this form, as long
as block numbers are not used up. -/
theorem represented_madeBy (actions : List Action)
    (hfew : actions.countP Action.isNewBlock < UInt32.size) : Represented (madeBy actions) := by
  obtain ⟨hedges, horders⟩ := balanced_madeBy actions
  apply (coherent_madeBy actions).represented hedges horders
  rw [size_madeBy]
  exact Nat.le_of_lt hfew

/-- Two edges between the same blocks, an edge from a block to itself, an edge for which
there is no room, an edge that is removed, and an order that is remembered. -/
def crowdedActions : List Action :=
  let entry := .ofNat 0
  let middle := .ofNat 1
  let last := .ofNat 2
  [.newBlock 1, .newBlock 2, .newBlock 3, .addEdge entry middle, .addEdge entry middle,
    .addEdge middle middle, .addEdge entry last, .addEdge last middle, .addEdge middle last,
    .removeEdge middle middle, .append last { operation := .ret none }, .linearize entry]

theorem represented_crowdedActions :
    crowdedActions.countP Action.isNewBlock < UInt32.size ∧
      ((madeBy crowdedActions).neighbours .pred (.ofNat 1) = [.ofNat 0, .ofNat 0] ∧
        (madeBy crowdedActions).neighbours .succ (.ofNat 0) = [.ofNat 1, .ofNat 1]) ∧
      Represented (madeBy crowdedActions) :=
  ⟨by decide, by decide, represented_madeBy crowdedActions (by decide)⟩

end ClassLang.Graph
