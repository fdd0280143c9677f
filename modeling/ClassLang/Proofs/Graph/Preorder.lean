/-
# The search as a recursion

An order is found with a stack on which a block may wait several times, put there
by several of its predecessors, and is looked at only when it comes off. Here the
search is compared with the recursion that it stands for: write down a block, then
do the same for each of its successors, and pass over what is written already. The
stack is what remains of the calls in progress, so both give the same order.

The search is also followed round by round with all accesses to blocks checked. No
round meets a number that no block has, and the rounds come to an end.
-/

import ClassLang.Proofs.Graph.Coherence

namespace ClassLang.Graph

open ClassLang.Code Relation

variable {graph : Graph}

/-! ## The recursion -/

/-- The successors of a block in the order in which they are walked through: as their
edges were added, but first the target of a true comparison, if the block ends in a
branch and has an edge to that target. -/
def Block.walkOrder (block : Block) : List BlockId :=
  match block.instructions.getLast? with
  | some { operation := .branch _ _ _ onTrue _, .. } =>
    if onTrue ∈ block.succs then onTrue :: block.succs.erase onTrue else block.succs
  | _ => block.succs

theorem Block.visitOrder_eq_walkOrder (block : Block) : block.visitOrder = block.walkOrder := by
  unfold visitOrder walkOrder branchTargets? last?
  cases block.instructions.getLast? with
  | none => rfl
  | some code =>
      obtain ⟨operation, comments⟩ := code
      cases operation <;> rfl

theorem unreached_antitone {order found : List BlockId} (hfound : order <+: found) :
    unreached graph found ≤ unreached graph order := by
  apply List.countP_mono_left
  intro n _ hn
  rw [decide_eq_true_eq] at hn ⊢
  exact fun hmem => hn (hfound.subset hmem)

/-- Walk through blocks one after the other. A block that is not in the order yet is
added to it, and everything below it is walked through before the next. -/
def walk (graph : Graph) (order : List BlockId) :
    List BlockId → { found : List BlockId // order <+: found }
  | [] => ⟨order, List.prefix_rfl⟩
  | id :: ids =>
    match _hblock : graph.block? id with
    | none => walk graph order ids
    | some block =>
      if _hnew : id ∈ order then walk graph order ids
      else
        let below := walk graph (order ++ [id]) block.walkOrder
        let after := walk graph below.1 ids
        ⟨after.1, (List.prefix_append order [id]).trans (below.2.trans after.2)⟩
termination_by ids => (unreached graph order, ids.length)
decreasing_by
  · exact Prod.Lex.right _ (by simp)
  · exact Prod.Lex.right _ (by simp)
  · exact Prod.Lex.left _ _ (unreached_append_lt _hblock _hnew)
  · apply Prod.Lex.left
    exact Nat.lt_of_le_of_lt (unreached_antitone below.2) (unreached_append_lt _hblock _hnew)

/-- The depth-first preorder from an entry. -/
def preorder (graph : Graph) (entry : BlockId) : List BlockId :=
  (walk graph [] [entry]).1

/-! ## The stack and the recursion -/

section Visit

variable {order stack : List BlockId} {id : BlockId}

theorem visit_of_unknown (hblock : graph.block? id = none) :
    visit graph order (id :: stack) = visit graph order stack := by
  rw [visit]
  split
  · rfl
  next found hfound =>
    rw [hblock] at hfound
    cases hfound

theorem visit_of_seen (hseen : id ∈ order) :
    visit graph order (id :: stack) = visit graph order stack := by
  rw [visit]
  split
  · rfl
  · rw [dif_pos hseen]

theorem visit_of_new {block : Block} (hblock : graph.block? id = some block) (hnew : id ∉ order) :
    visit graph order (id :: stack) =
      visit graph (order ++ [id]) (block.walkOrder.filter (· ∉ order ++ [id]) ++ stack) := by
  rw [visit]
  split
  next hnone =>
    rw [hblock] at hnone
    cases hnone
  next found hfound =>
    obtain rfl := Option.some.inj (hblock.symm.trans hfound)
    rw [dif_neg hnew, Block.visitOrder_eq_walkOrder]

end Visit

/-- What is on the stack is walked through before what lies below. Blocks that were in
the order when the stack was filled are not there, which makes no difference: they
would be passed over. -/
theorem visit_filter_append (order ids : List BlockId) (seen stack : List BlockId)
    (hseen : seen ⊆ order) :
    visit graph order (ids.filter (· ∉ seen) ++ stack) =
      visit graph (walk graph order ids).1 stack := by
  fun_induction walk graph order ids generalizing seen stack with
  | case1 order => rfl
  | case2 order id ids hblock ih =>
      by_cases hid : id ∈ seen
      · rw [List.filter_cons_of_neg (by simpa using hid)]
        exact ih seen stack hseen
      · rw [List.filter_cons_of_pos (by simpa using hid), List.cons_append, visit_of_unknown hblock]
        exact ih seen stack hseen
  | case3 order id ids block hblock hold ih =>
      by_cases hid : id ∈ seen
      · rw [List.filter_cons_of_neg (by simpa using hid)]
        exact ih seen stack hseen
      · rw [List.filter_cons_of_pos (by simpa using hid), List.cons_append, visit_of_seen hold]
        exact ih seen stack hseen
  | case4 order id ids block hblock hnew below after ihBelow ihAfter =>
      have hid : id ∉ seen := fun hmem => hnew (hseen hmem)
      have hbelow : seen ⊆ below.1 := fun _ hmem =>
        below.2.subset (List.mem_append_left _ (hseen hmem))
      rw [List.filter_cons_of_pos (by simpa using hid), List.cons_append, visit_of_new hblock hnew,
        ihBelow (order ++ [id]) _ (List.Subset.refl _), ihAfter seen stack hbelow]

theorem orderFrom_eq_preorder (entry : BlockId) : orderFrom graph entry = preorder graph entry := by
  have hwalk := @visit_filter_append graph [] [entry] [] [] (List.Subset.refl _)
  rw [visit] at hwalk
  exact hwalk

/-! ## Rounds of the search -/

/-- One round of the search, from an order and a stack to the next. A block is taken off
the stack and passed over or written down, and then its successors are looked at. Where
a number is met that no block has, there is no round. -/
inductive Round (graph : Graph) :
    List BlockId × List BlockId → List BlockId × List BlockId → Prop where
  | skip {order stack : List BlockId} {id : BlockId} {block : Block}
      (hblock : graph.block? id = some block) (hseen : id ∈ order) :
      Round graph (order, id :: stack) (order, stack)
  | enter {order stack : List BlockId} {id : BlockId} {block : Block}
      (hblock : graph.block? id = some block) (hnew : id ∉ order)
      (hsuccs : ∀ succ ∈ block.succs, (graph.block? succ).isSome) :
      Round graph (order, id :: stack)
        (order ++ [id], block.walkOrder.filter (· ∉ order ++ [id]) ++ stack)

/-- There is never a choice. -/
theorem round_rightUnique : Relator.RightUnique (Round graph) := by
  intro state first second hfirst hsecond
  cases hfirst with
  | skip hblock hseen =>
      cases hsecond with
      | skip => rfl
      | enter _ hnew => exact absurd hseen hnew
  | enter hblock hnew =>
      cases hsecond with
      | skip _ hseen => exact absurd hseen hnew
      | enter hfound =>
          obtain rfl := Option.some.inj (hblock.symm.trans hfound)
          rfl

/-- The rounds lead to the order that is found, as long as all numbers on the stack are
those of blocks. -/
theorem rounds_visit (hknown : EdgesKnown graph) (order stack : List BlockId)
    (hstack : ∀ id ∈ stack, (graph.block? id).isSome) :
    ReflTransGen (Round graph) (order, stack) (visit graph order stack, []) := by
  fun_induction visit graph order stack with
  | case1 order => exact .refl
  | case2 order id stack hblock ih =>
      have hid := hstack id List.mem_cons_self
      rw [hblock] at hid
      cases hid
  | case3 order id stack block hblock hseen ih =>
      apply ReflTransGen.head (.skip hblock hseen)
      exact ih fun other hother => hstack other (List.mem_cons_of_mem _ hother)
  | case4 order id stack block hblock hnew order' ih =>
      have hsuccs : ∀ succ ∈ block.succs, (graph.block? succ).isSome :=
        fun succ hsucc => hknown id succ ⟨block, hblock, hsucc⟩
      have hround : Round graph (order, id :: stack)
          (order', block.visitOrder.filter (· ∉ order') ++ stack) := by
        rw [Block.visitOrder_eq_walkOrder]
        exact .enter hblock hnew hsuccs
      apply ReflTransGen.head hround
      apply ih
      intro other hother
      rcases List.mem_append.mp hother with hsucc | hrest
      · exact hsuccs other (Block.mem_visitOrder.mp (List.mem_filter.mp hsucc).1)
      · exact hstack other (List.mem_cons_of_mem _ hrest)

/-- Wherever the rounds have got to, they go on to the end. -/
theorem rounds_finish {start state finish : List BlockId × List BlockId}
    (hfinish : ReflTransGen (Round graph) start finish) (hempty : finish.2 = [])
    (hstate : ReflTransGen (Round graph) start state) :
    ReflTransGen (Round graph) state finish := by
  rcases ReflTransGen.total_of_right_unique round_rightUnique hstate hfinish with h | h
  · exact h
  · rcases h.cases_head with rfl | ⟨next, hround, _⟩
    · exact .refl
    · cases hround with
      | skip => cases hempty
      | enter => cases hempty

/-! ## Linear orders of graphs that operations make -/

/-- What an order from an entry is. -/
structure Linearized (graph : Graph) (entry : BlockId) (order : List BlockId) : Prop where
  eq_preorder : order = preorder graph entry
  /-- From the entry alone on the stack, the search goes on until the stack is empty,
  and never asks for a block that is not there. -/
  rounds : ∀ state, ReflTransGen (Round graph) ([], [entry]) state →
    ReflTransGen (Round graph) state (order, [])
  head : order.head? = some entry
  nodup : order.Nodup
  mem_iff : ∀ id, id ∈ order ↔ Reaches graph entry id

theorem linearized_orderFrom (hknown : EdgesKnown graph) {entry : BlockId}
    (hentry : (graph.block? entry).isSome) : Linearized graph entry (orderFrom graph entry) where
  eq_preorder := orderFrom_eq_preorder entry
  rounds state hstate := by
    refine rounds_finish (rounds_visit hknown [] [entry] ?_) rfl hstate
    intro id hid
    rwa [List.mem_singleton.mp hid]
  head := by
    obtain ⟨rest, hrest⟩ := orderFrom_eq_cons hentry
    rw [hrest, List.head?_cons]
  nodup := nodup_orderFrom entry
  mem_iff id := mem_orderFrom_iff hknown hentry

/-- In every graph that operations make, there is an order exactly from the blocks
without predecessors, and it is the depth-first preorder, whether it was remembered or
is searched for now. -/
theorem linearize_madeBy_preorder (actions : List Action) (entry : BlockId) :
    ((∃ order, (linearize (madeBy actions) entry).1 = .ok order) ↔
      ∃ block, (madeBy actions).block? entry = some block ∧ block.preds = []) ∧
    ∀ order, (linearize (madeBy actions) entry).1 = .ok order →
      Linearized (madeBy actions) entry order := by
  have hgraph := coherent_madeBy actions
  have hentry : ∀ order, (linearize (madeBy actions) entry).1 = .ok order →
      ∃ block, (madeBy actions).block? entry = some block ∧ block.preds = [] := by
    intro order horder
    unfold linearize at horder
    split at horder
    · cases horder
    next block hblock =>
      split at horder
      · cases horder
      next hpreds => exact ⟨block, hblock, Decidable.not_not.mp hpreds⟩
  refine ⟨⟨fun ⟨order, horder⟩ => hentry order horder, ?_⟩, ?_⟩
  · rintro ⟨block, hblock, hpreds⟩
    obtain ⟨after, hafter, _⟩ := linearize_eq_ok hgraph hblock hpreds
    exact ⟨_, by rw [hafter]⟩
  · intro order horder
    obtain ⟨block, hblock, hpreds⟩ := hentry order horder
    obtain ⟨after, hafter, _⟩ := linearize_eq_ok hgraph hblock hpreds
    rw [hafter] at horder
    cases horder
    exact linearized_orderFrom hgraph.edgesKnown (Option.isSome_of_mem hblock)

/-- Two branches that meet again and go back, of which the true one was added last. The
order is found before and after a block is cut off. -/
def meetingActions : List Action :=
  let test := { operation := .branch .ne "c$l" "0" (.ofNat 2) (.ofNat 1) }
  [.newBlock 1, .newBlock 2, .newBlock 3, .newBlock 4, .append (.ofNat 0) test,
    .addEdge (.ofNat 0) (.ofNat 1), .addEdge (.ofNat 0) (.ofNat 2), .addEdge (.ofNat 1) (.ofNat 3),
    .addEdge (.ofNat 2) (.ofNat 3), .addEdge (.ofNat 3) (.ofNat 1), .linearize (.ofNat 0),
    .removeEdge (.ofNat 3) (.ofNat 1), .linearize (.ofNat 0)]

theorem linearized_meetingActions :
    ∃ order, (linearize (madeBy meetingActions) (.ofNat 0)).1 = .ok order ∧
      Linearized (madeBy meetingActions) (.ofNat 0) order := by
  obtain ⟨hiff, hlinearized⟩ := linearize_madeBy_preorder meetingActions (.ofNat 0)
  obtain ⟨order, horder⟩ := hiff.mpr ⟨_, rfl, rfl⟩
  exact ⟨order, horder, hlinearized order horder⟩

end ClassLang.Graph
