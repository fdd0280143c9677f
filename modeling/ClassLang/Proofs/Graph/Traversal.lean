/-
# What a traversal reaches

The search behind an order keeps its pending blocks on a stack and never looks
at a block twice. Here its result is tied to reachability along edges: the order
starts at the entry, has no block twice, and holds exactly the blocks that can be
reached. The search reads nothing of a block but the order in which its
successors are visited, so remembered orders never influence it.
-/

import Mathlib.Logic.Relation
import ClassLang.Graph.Order

namespace ClassLang.Graph

open ClassLang.Code

/-- There is an edge from one block to another. -/
def Edge (graph : Graph) (source target : BlockId) : Prop :=
  ∃ block, graph.block? source = some block ∧ target ∈ block.succs

/-- A block can be reached from another along edges. -/
def Reaches (graph : Graph) : BlockId → BlockId → Prop :=
  Relation.ReflTransGen (Edge graph)

/-- Every edge ends at a block of the graph. -/
def EdgesKnown (graph : Graph) : Prop :=
  ∀ source target, Edge graph source target → (graph.block? target).isSome

/-- Visiting the true target first only rearranges the successors. -/
theorem Block.mem_visitOrder {block : Block} {id : BlockId} :
    id ∈ block.visitOrder ↔ id ∈ block.succs := by
  unfold Block.visitOrder
  split
  · split
    next htrue => exact (List.perm_cons_erase htrue).symm.mem_iff
    next => rfl
  · rfl

variable {graph : Graph}

/-! ## The search -/

/-- The search only ever adds to the order. -/
theorem prefix_visit (order stack : List BlockId) : order <+: visit graph order stack := by
  fun_induction visit graph order stack with
  | case1 order => exact List.prefix_rfl
  | case2 order id stack hblock ih => exact ih
  | case3 order id stack block hblock hseen ih => exact ih
  | case4 order id stack block hblock hnew order' ih =>
      exact (List.prefix_append order [id]).trans ih

theorem nodup_visit (order stack : List BlockId) (hnodup : order.Nodup) :
    (visit graph order stack).Nodup := by
  fun_induction visit graph order stack with
  | case1 order => exact hnodup
  | case2 order id stack hblock ih => exact ih hnodup
  | case3 order id stack block hblock hseen ih => exact ih hnodup
  | case4 order id stack block hblock hnew order' ih =>
      apply ih
      refine List.nodup_append.mpr ⟨hnodup, by simp, ?_⟩
      rintro seen hseen _ hid rfl
      exact hnew (List.mem_singleton.mp hid ▸ hseen)

/-- A pending block of the graph gets its place in the order. -/
theorem mem_visit_of_mem_stack (order stack : List BlockId) {id : BlockId}
    (hid : id ∈ stack) (hknown : (graph.block? id).isSome) :
    id ∈ visit graph order stack := by
  fun_induction visit graph order stack with
  | case1 order => simp at hid
  | case2 order head stack hblock ih =>
      rcases List.mem_cons.mp hid with rfl | hid
      · simp [hblock] at hknown
      · exact ih hid
  | case3 order head stack block hblock hseen ih =>
      rcases List.mem_cons.mp hid with rfl | hid
      · exact (prefix_visit order stack).subset hseen
      · exact ih hid
  | case4 order head stack block hblock hnew order' ih =>
      rcases List.mem_cons.mp hid with rfl | hid
      · exact (prefix_visit _ _).subset (by simp [order'])
      · exact ih (List.mem_append_right _ hid)

/-- What the search adds is a block of the graph and was reached from a pending
block. -/
theorem reaches_of_mem_visit (order stack : List BlockId) {id : BlockId}
    (hid : id ∈ visit graph order stack) :
    id ∈ order ∨ ((graph.block? id).isSome ∧ ∃ start ∈ stack, Reaches graph start id) := by
  fun_induction visit graph order stack with
  | case1 order => exact Or.inl hid
  | case2 order head stack hblock ih =>
      refine (ih hid).imp_right fun ⟨hknown, start, hstart, hreach⟩ => ?_
      exact ⟨hknown, start, List.mem_cons_of_mem _ hstart, hreach⟩
  | case3 order head stack block hblock hseen ih =>
      refine (ih hid).imp_right fun ⟨hknown, start, hstart, hreach⟩ => ?_
      exact ⟨hknown, start, List.mem_cons_of_mem _ hstart, hreach⟩
  | case4 order head stack block hblock hnew order' ih =>
      rcases ih hid with hid | ⟨hknown, start, hstart, hreach⟩
      · rcases List.mem_append.mp hid with hid | hid
        · exact Or.inl hid
        · obtain rfl := List.mem_singleton.mp hid
          exact Or.inr ⟨by simp [hblock], id, List.mem_cons_self, .refl⟩
      · refine Or.inr ⟨hknown, ?_⟩
        rcases List.mem_append.mp hstart with hstart | hstart
        · have hedge : Edge graph head start :=
            ⟨block, hblock, Block.mem_visitOrder.mp (List.mem_filter.mp hstart).1⟩
          exact ⟨head, List.mem_cons_self, .head hedge hreach⟩
        · exact ⟨start, List.mem_cons_of_mem _ hstart, hreach⟩

/-- The order is closed under edges at the end, if every edge that leaves the
order at the start leads to a pending block. -/
theorem edge_closed_visit (hknown : EdgesKnown graph) (order stack : List BlockId)
    (hpending : ∀ source ∈ order, ∀ target, Edge graph source target →
      target ∈ order ∨ target ∈ stack) :
    ∀ source ∈ visit graph order stack, ∀ target, Edge graph source target →
      target ∈ visit graph order stack := by
  fun_induction visit graph order stack with
  | case1 order =>
      intro source hsource target hedge
      simpa using hpending source hsource target hedge
  | case2 order head stack hblock ih =>
      apply ih
      intro source hsource target hedge
      refine (hpending source hsource target hedge).imp_right fun htarget => ?_
      rcases List.mem_cons.mp htarget with rfl | htarget
      · simpa [hblock] using hknown _ _ hedge
      · exact htarget
  | case3 order head stack block hblock hseen ih =>
      apply ih
      intro source hsource target hedge
      rcases hpending source hsource target hedge with htarget | htarget
      · exact Or.inl htarget
      · rcases List.mem_cons.mp htarget with rfl | htarget
        · exact Or.inl hseen
        · exact Or.inr htarget
  | case4 order head stack block hblock hnew order' ih =>
      apply ih
      intro source hsource target hedge
      by_cases htarget : target ∈ order'
      · exact Or.inl htarget
      refine Or.inr (List.mem_append.mpr ?_)
      rcases List.mem_append.mp hsource with hsource | hsource
      · rcases hpending source hsource target hedge with hmem | hmem
        · exact absurd (List.mem_append_left _ hmem) htarget
        · rcases List.mem_cons.mp hmem with rfl | hmem
          · exact absurd (List.mem_append_right _ List.mem_cons_self) htarget
          · exact Or.inr hmem
      · obtain rfl := List.mem_singleton.mp hsource
        obtain ⟨found, hfound, hsucc⟩ := hedge
        obtain rfl : block = found := Option.some.inj (hblock.symm.trans hfound)
        exact Or.inl (List.mem_filter.mpr
          ⟨Block.mem_visitOrder.mpr hsucc, by simpa using htarget⟩)

/-- Graphs whose blocks visit their successors alike are searched alike. -/
theorem visit_congr {other : Graph}
    (hagree : ∀ id, (graph.block? id).map Block.visitOrder =
      (other.block? id).map Block.visitOrder)
    (order stack : List BlockId) : visit graph order stack = visit other order stack := by
  fun_induction visit graph order stack with
  | case1 order => rw [visit]
  | case2 order head stack hblock ih =>
      have hother : other.block? head = none := by simpa [hblock] using (hagree head).symm
      rw [visit]
      split
      · exact ih
      · simp_all
  | case3 order head stack block hblock hseen ih =>
      rw [visit]
      split
      · exact ih
      · rw [dif_pos hseen]
        exact ih
  | case4 order head stack block hblock hnew order' ih =>
      have hother := hagree head
      rw [visit]
      split
      next hnone => simp [hblock, hnone] at hother
      next found hfound =>
        rw [dif_neg hnew, ih]
        have hvisit : block.visitOrder = found.visitOrder := by
          simpa [hblock, hfound] using hother
        rw [hvisit]

/-! ## The order from an entry -/

theorem orderFrom_congr {other : Graph}
    (hagree : ∀ id, (graph.block? id).map Block.visitOrder =
      (other.block? id).map Block.visitOrder)
    (entry : BlockId) : orderFrom graph entry = orderFrom other entry :=
  visit_congr hagree [] [entry]

theorem nodup_orderFrom (entry : BlockId) : (orderFrom graph entry).Nodup :=
  nodup_visit [] [entry] List.nodup_nil

/-- The order begins with its entry. -/
theorem orderFrom_eq_cons {entry : BlockId} (hentry : (graph.block? entry).isSome) :
    ∃ rest, orderFrom graph entry = entry :: rest := by
  obtain ⟨block, hblock⟩ := Option.isSome_iff_exists.mp hentry
  unfold orderFrom
  rw [visit]
  split
  next hnone => simp [hnone] at hblock
  next found hfound =>
    rw [dif_neg List.not_mem_nil]
    obtain ⟨rest, hrest⟩ := @prefix_visit graph ([] ++ [entry])
      (found.visitOrder.filter (· ∉ ([] ++ [entry] : List BlockId)) ++ [])
    exact ⟨rest, hrest.symm⟩

/-- The order holds exactly the blocks that can be reached from its entry. -/
theorem mem_orderFrom_iff (hknown : EdgesKnown graph) {entry id : BlockId}
    (hentry : (graph.block? entry).isSome) :
    id ∈ orderFrom graph entry ↔ Reaches graph entry id := by
  constructor
  · intro hid
    rcases reaches_of_mem_visit [] [entry] hid with hid | ⟨_, start, hstart, hreach⟩
    · simp at hid
    · obtain rfl := List.mem_singleton.mp hstart
      exact hreach
  · intro hreach
    induction hreach with
    | refl => exact mem_visit_of_mem_stack [] [entry] List.mem_cons_self hentry
    | tail _ hedge ih =>
        exact edge_closed_visit hknown [] [entry] (by simp) _ ih _ hedge

/-- Every block in the order is a block of the graph. -/
theorem isSome_of_mem_orderFrom {entry id : BlockId} (hid : id ∈ orderFrom graph entry) :
    (graph.block? id).isSome := by
  rcases reaches_of_mem_visit [] [entry] hid with hid | ⟨hknown, _⟩
  · simp at hid
  · exact hknown

end ClassLang.Graph
