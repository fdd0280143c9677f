/-
# The walk from the root

The order of the classes from the root is found by a loop: classes are listed under
their parents, and the lists are followed with the classes that are still to be visited
on a stack. The descendants of each class are then summed up from its children's, against
this order. In a tree the loop never comes back to a class that it has seen, so the order
is the list of the root with each class before the lists of its children; and every class
is counted after all of its children, so what is summed up is the length of its list.
-/

import ClassLang.Hierarchy.Census
import ClassLang.Proofs.Hierarchy.Tree

namespace ClassLang

namespace Census

variable {census : Census} {name : String}

/-! ## Kin by name -/

theorem get?_modify {change : Kin → Kin} (hchange : ∀ kin, (change kin).name = kin.name)
    (other : String) :
    (census.modify name change).get? other =
      (census.get? other).map fun kin => if other = name then change kin else kin :=
  Hierarchy.find?_map_keyed hchange census.entries name other

theorem names_modify {change : Kin → Kin} (hchange : ∀ kin, (change kin).name = kin.name) :
    (census.modify name change).entries.map Kin.name = census.entries.map Kin.name := by
  rw [modify, List.map_map]
  congr 1
  funext kin
  rw [Function.comp_apply]
  split
  · exact hchange kin
  · rfl

/-- A class that is listed under its parent is one more child there. -/
theorem get?_listUnderParent (hierarchy : Hierarchy) (other : String) :
    (listUnderParent hierarchy census name).get? other =
      (census.get? other).map fun kin => { kin with
        children := kin.children ++
          [name].filter fun child => hierarchy.parent? child == some other } := by
  unfold listUnderParent
  cases hparent : hierarchy.parent? name with
  | none => simp [hparent]
  | some parent =>
      dsimp only
      rw [get?_modify]
      · congr 1
        funext kin
        by_cases hother : other = parent
        · simp [hparent, hother]
        · simp [hparent, hother, Ne.symm hother]
      · exact fun _ => rfl

theorem get?_foldl_listUnderParent (hierarchy : Hierarchy) (names : List String)
    (other : String) :
    (names.foldl (listUnderParent hierarchy) census).get? other =
      (census.get? other).map fun kin => { kin with
        children := kin.children ++
          names.filter fun child => hierarchy.parent? child == some other } := by
  induction names generalizing census with
  | nil => simp
  | cons name names ih =>
      rw [List.foldl_cons, ih, get?_listUnderParent, Option.map_map]
      congr 1
      funext kin
      rw [Function.comp_apply, List.append_assoc, ← List.filter_append, List.singleton_append]

theorem names_foldl_listUnderParent (hierarchy : Hierarchy) (names : List String) :
    (names.foldl (listUnderParent hierarchy) census).entries.map Kin.name =
      census.entries.map Kin.name := by
  induction names generalizing census with
  | nil => rfl
  | cons name names ih =>
      rw [List.foldl_cons, ih]
      unfold listUnderParent
      split
      · rfl
      · exact names_modify fun _ => rfl

/-! ## Rounds -/

/-- The classes that are put on the stack from here on: those that are on it, and the
children of those that have not been seen. -/
def pending (census : Census) (order stack : List String) : Nat :=
  stack.length + ((census.entries.filter fun kin => kin.name ∉ order).flatMap Kin.children).length

/-- A class that has not been seen goes to the order for its children. -/
theorem pending_visit {order stack : List String} (hnew : name ∉ order) :
    census.pending (order ++ [name]) (census.children name ++ stack) <
      census.pending order (name :: stack) := by
  have hunseen : (census.entries.filter fun kin => kin.name ∉ order ++ [name]) =
      (census.entries.filter fun kin => kin.name ∉ order).filter fun kin => kin.name ≠ name := by
    rw [List.filter_filter]
    apply List.filter_congr
    intro kin _
    simp [and_comm]
  have hsplit := ((List.filter_append_perm (fun kin : Kin => kin.name = name)
    (census.entries.filter fun kin => kin.name ∉ order)).flatMap_right Kin.children).length_eq
  have hchildren : (census.children name).length ≤
      (((census.entries.filter fun kin => kin.name ∉ order).filter
        fun kin => kin.name = name).flatMap Kin.children).length := by
    unfold children
    cases hget : census.get? name with
    | none => exact Nat.zero_le _
    | some kin =>
        have hname : kin.name = name := by simpa using List.find?_some hget
        have hmem : kin ∈ (census.entries.filter fun kin => kin.name ∉ order).filter
            fun kin => kin.name = name := by
          simp [List.mem_of_find?_eq_some hget, hname, hnew]
        have hsub := (List.singleton_sublist.mpr hmem).flatMap Kin.children
        rw [List.flatMap_singleton] at hsub
        exact hsub.length_le
  rw [List.flatMap_append, List.length_append] at hsplit
  rw [pending, pending, hunseen, List.length_append, List.length_cons]
  simp only [decide_not] at hsplit hchildren ⊢
  omega

/-- Once there are as many rounds as classes that are put on the stack, the number of
rounds does not matter. -/
theorem visit_eq_of_pending_le {rounds other : Nat} {order stack : List String}
    (hrounds : census.pending order stack ≤ rounds)
    (hother : census.pending order stack ≤ other) :
    census.visit rounds order stack = census.visit other order stack := by
  induction rounds generalizing other order stack with
  | zero =>
      have hempty : stack = [] := List.length_eq_zero_iff.mp (by unfold pending at hrounds; omega)
      subst hempty
      cases other <;> rfl
  | succ rounds ih =>
      cases stack with
      | nil => cases other <;> rfl
      | cons name stack =>
          cases other with
          | zero => exact absurd hother (by unfold pending; simp)
          | succ other =>
              rw [visit, visit]
              split
              · have hpending : census.pending order (name :: stack) =
                    census.pending order stack + 1 := by
                  rw [pending, pending, List.length_cons, Nat.add_right_comm]
                exact ih (by omega) (by omega)
              · next hnew =>
                  have hpending := @pending_visit census name order stack hnew
                  exact ih (by omega) (by omega)

/-! ## Sums -/

theorem get?_sumUp (other : String) :
    (census.sumUp name).get? other = (census.get? other).map fun kin =>
      if other = name then { kin with descendants := census.sum kin.children } else kin := by
  rw [sumUp, get?_modify]
  exact fun _ => rfl

/-- If the children are counted, their lists are summed up. -/
theorem sum_eq_length {children : List String} {below : String → List String}
    (hcounted : ∀ child ∈ children,
      (census.get? child).elim 0 (·.descendants + 1) = (below child).length) :
    census.sum children = (children.flatMap below).length := by
  suffices hsum : ∀ total, children.foldl
      (fun total child => total + (census.get? child).elim 0 (·.descendants + 1)) total =
        total + (children.flatMap below).length by
    rw [sum, hsum, Nat.zero_add]
  induction children with
  | nil => exact fun total => rfl
  | cons child children ih =>
      rw [List.forall_mem_cons] at hcounted
      intro total
      rw [List.foldl_cons, ih hcounted.2, hcounted.1, List.flatMap_cons, List.length_append,
        Nat.add_assoc]

end Census

namespace Hierarchy

variable {hierarchy : Hierarchy}

/-! ## Child lists -/

theorem get?_childLists (name : String) :
    hierarchy.childLists.get? name =
      if name ∈ hierarchy.names then
        some { name, children := hierarchy.names.filter (hierarchy.parent? · == some name) }
      else none := by
  have hstart : Census.get? ⟨hierarchy.names.map fun name => { name }⟩ name =
      if name ∈ hierarchy.names then some { name } else none := by
    rw [Census.get?, List.find?_map]
    have hsame : ((fun kin : Kin => kin.name == name) ∘ fun name => { name }) = (· == name) := rfl
    rw [hsame]
    split
    · next hname =>
        have hsome : (hierarchy.names.find? (· == name)).isSome :=
          List.find?_isSome.mpr ⟨name, hname, beq_self_eq_true name⟩
        obtain ⟨found, hfound⟩ := Option.isSome_iff_exists.mp hsome
        have heq : found = name := by simpa using List.find?_some hfound
        rw [hfound, heq, Option.map_some]
    · next hname =>
        rw [List.find?_eq_none.mpr, Option.map_none]
        intro other hother heq
        exact hname (beq_iff_eq.mp heq ▸ hother)
  rw [childLists, Census.get?_foldl_listUnderParent, hstart]
  split <;> rfl

theorem children_childLists (hdistinct : hierarchy.Distinct) {name : String}
    (hname : name ∈ hierarchy.names) :
    hierarchy.childLists.children name = hierarchy.children name := by
  rw [Census.children, get?_childLists, if_pos hname, children_eq_filter hdistinct hname]
  rfl

theorem names_childLists : hierarchy.childLists.entries.map Kin.name = hierarchy.names := by
  rw [childLists, Census.names_foldl_listUnderParent, List.map_map]
  exact List.map_id _

theorem length_entries_childLists : hierarchy.childLists.entries.length = hierarchy.size := by
  rw [← List.length_map Kin.name, names_childLists, length_names]

/-- With distinct names no class is listed under two parents. -/
theorem length_flatMap_childLists_le (hdistinct : hierarchy.Distinct) :
    (hierarchy.childLists.entries.flatMap Kin.children).length ≤ hierarchy.size := by
  let below (name : String) := hierarchy.names.filter (hierarchy.parent? · == some name)
  have hchildren : ∀ kin ∈ hierarchy.childLists.entries, kin.children = below kin.name := by
    intro kin hkin
    have hnodup : (hierarchy.childLists.entries.map Kin.name).Nodup := by
      rw [names_childLists]
      exact hdistinct
    have hget := @get?_childLists hierarchy kin.name
    rw [if_pos (names_childLists ▸ List.mem_map_of_mem hkin)] at hget
    have heq := List.inj_on_of_nodup_map hnodup (List.mem_of_find?_eq_some hget) hkin rfl
    rw [← heq]
  have hflat : hierarchy.childLists.entries.flatMap Kin.children =
      hierarchy.names.flatMap below := by
    rw [List.flatMap_congr hchildren, ← names_childLists, List.flatMap_map]
  have hnodup : (hierarchy.names.flatMap below).Nodup := by
    refine List.nodup_flatMap.mpr ⟨fun name _ => hdistinct.filter _, ?_⟩
    refine List.Pairwise.imp (fun hne child hchild hother => hne ?_) hdistinct
    have hfirst := beq_iff_eq.mp (List.mem_filter.mp hchild).2
    have hsecond := beq_iff_eq.mp (List.mem_filter.mp hother).2
    exact Option.some.inj (hfirst.symm.trans hsecond)
  have hsub : hierarchy.names.flatMap below ⊆ hierarchy.names := by
    intro child hchild
    obtain ⟨name, _, hmem⟩ := List.mem_flatMap.mp hchild
    exact (List.mem_filter.mp hmem).1
  rw [hflat, ← length_names]
  exact (hnodup.subperm hsub).length_le

/-- Whether or not the classes form a tree, more rounds would find no more. -/
theorem rootFirst_eq_visit (hdistinct : hierarchy.Distinct) {rounds : Nat}
    (hrounds : hierarchy.size + 1 ≤ rounds) :
    hierarchy.rootFirst = hierarchy.childLists.visit rounds [] [Ty.objectName] := by
  have hpending : hierarchy.childLists.pending [] [Ty.objectName] ≤ hierarchy.size + 1 := by
    have hle := length_flatMap_childLists_le hdistinct
    rw [Census.pending, List.filter_eq_self.mpr fun _ _ => by simp, List.length_singleton]
    omega
  apply Census.visit_eq_of_pending_le
  · rwa [length_entries_childLists]
  · exact Nat.le_trans hpending hrounds

namespace IsTree

variable (htree : hierarchy.IsTree) {name : String}

include htree

/-! ## The order -/

/-- The loop puts the lists of the classes on the stack behind what it has seen. Every
round takes one class from what is ahead. -/
theorem visit_childLists {rounds : Nat} {order stack : List String}
    (hknown : ∀ name ∈ stack, name ∈ hierarchy.names)
    (hnodup : (order ++ stack.flatMap (hierarchy.subtree hierarchy.size)).Nodup)
    (hrounds : (stack.flatMap (hierarchy.subtree hierarchy.size)).length ≤ rounds) :
    hierarchy.childLists.visit rounds order stack =
      order ++ stack.flatMap (hierarchy.subtree hierarchy.size) := by
  induction rounds generalizing order stack with
  | zero =>
      rw [List.length_eq_zero_iff.mp (Nat.le_zero.mp hrounds), List.append_nil]
      rfl
  | succ rounds ih =>
      cases stack with
      | nil => exact (List.append_nil order).symm
      | cons name stack =>
          rw [List.forall_mem_cons] at hknown
          have hsplit : (name :: stack).flatMap (hierarchy.subtree hierarchy.size) =
              name :: (hierarchy.children name ++ stack).flatMap
                (hierarchy.subtree hierarchy.size) := by
            rw [List.flatMap_cons, htree.subtree_size hknown.1, List.flatMap_append,
              List.cons_append]
          rw [hsplit] at hnodup hrounds ⊢
          have hnew : name ∉ order := fun hold =>
            (List.nodup_append.mp hnodup).2.2 name hold name List.mem_cons_self rfl
          have hahead : ∀ other ∈ hierarchy.children name ++ stack, other ∈ hierarchy.names := by
            intro other hother
            rcases List.mem_append.mp hother with hchild | hother
            · exact mem_names_of_isParent ((mem_children_iff htree.distinct).mp hchild).2
            · exact hknown.2 other hother
          rw [List.append_cons] at hnodup ⊢
          rw [Census.visit, if_neg hnew, children_childLists htree.distinct hknown.1,
            ih hahead hnodup (Nat.le_of_succ_le_succ hrounds)]

/-- The order from the root is the list of the root. -/
theorem rootFirst_eq : hierarchy.rootFirst = hierarchy.subtree hierarchy.size Ty.objectName := by
  have hstack : [Ty.objectName].flatMap (hierarchy.subtree hierarchy.size) =
      hierarchy.subtree hierarchy.size Ty.objectName := List.flatMap_singleton _ _
  rw [rootFirst, Census.rootFirst, length_entries_childLists, htree.visit_childLists, hstack,
    List.nil_append]
  · intro name hname
    rw [List.mem_singleton.mp hname]
    exact htree.root_mem
  · rw [hstack, List.nil_append]
    exact nodup_subtree htree.distinct htree.acyclic _ _
  · rw [hstack, htree.subtree_root_perm_names.length_eq, length_names]
    exact Nat.le_succ _

/-- The order from the root holds every class once. -/
theorem rootFirst_perm_names : hierarchy.rootFirst.Perm hierarchy.names := by
  rw [htree.rootFirst_eq]
  exact htree.subtree_root_perm_names

theorem parentsFirst_rootFirst : hierarchy.ParentsFirst [] hierarchy.rootFirst := by
  rw [htree.rootFirst_eq]
  refine parentsFirst_subtree htree.distinct (fun parent hparent => ?_) _
  rw [IsParent, htree.parent?_root] at hparent
  cases hparent

/-- The list of a class is a part of the order from the root. -/
theorem subtree_infix_rootFirst (hname : name ∈ hierarchy.names) :
    hierarchy.subtree hierarchy.size name <:+: hierarchy.rootFirst := by
  rw [htree.rootFirst_eq]
  refine htree.induction (fun name hname ih => ?_) hname
  cases hparent : hierarchy.parent? name with
  | none =>
      obtain rfl := htree.eq_root name hname hparent
      exact List.infix_rfl
  | some parent =>
      have hknown := htree.parent_mem name parent hparent
      have hchild := (mem_children_iff htree.distinct).mpr ⟨hknown, hparent⟩
      refine List.IsInfix.trans ?_ (ih parent hparent)
      rw [htree.subtree_size hknown]
      exact (List.infix_flatMap_of_mem hchild _).trans (List.suffix_cons _ _).isInfix

/-- A class comes after its parent. -/
theorem parent_before_child {parent : String} (hparent : hierarchy.IsParent name parent) :
    [parent, name].Sublist hierarchy.rootFirst := by
  have hknown := htree.parent_mem name parent hparent
  have hsegment := (htree.subtree_infix_rootFirst hknown).sublist
  refine List.Sublist.trans ?_ hsegment
  rw [htree.subtree_size hknown, List.cons_sublist_cons, List.singleton_sublist, List.mem_flatMap]
  refine ⟨name, (mem_children_iff htree.distinct).mpr ⟨hknown, hparent⟩, ?_⟩
  exact htree.mem_subtree_size_iff.mpr (.inl rfl)

/-- What stands behind a class in the order holds all its children. -/
theorem children_subset_of_suffix {rest : List String}
    (hsuffix : name :: rest <:+ hierarchy.rootFirst) : hierarchy.children name ⊆ rest := by
  intro child hchild
  have hbefore := htree.parent_before_child ((mem_children_iff htree.distinct).mp hchild).2
  obtain ⟨before, horder⟩ := hsuffix
  have hnodup := htree.rootFirst_perm_names.nodup_iff.mpr htree.distinct
  rw [← horder] at hbefore hnodup
  have hnew : name ∉ before := fun hold =>
    (List.nodup_append.mp hnodup).2.2 name hold name List.mem_cons_self rfl
  obtain ⟨left, right, hsplit, hleft, hright⟩ := List.sublist_append_iff.mp hbefore
  cases left with
  | nil =>
      rw [List.nil_append] at hsplit
      rwa [← hsplit, List.cons_sublist_cons, List.singleton_sublist] at hright
  | cons other left =>
      obtain ⟨rfl, _⟩ := List.cons.inj hsplit
      exact absurd (hleft.subset List.mem_cons_self) hnew

end IsTree

/-! ## The numbers of descendants -/

/-- The classes in `done` are counted. -/
def Counted (hierarchy : Hierarchy) (done : List String) (census : Census) : Prop :=
  ∀ name ∈ hierarchy.names, ∃ kin, census.get? name = some kin ∧
    kin.children = hierarchy.children name ∧
    (name ∈ done → kin.descendants + 1 = (hierarchy.subtree hierarchy.size name).length)

/-- When all children of a class are counted, the class is counted by summing up. -/
theorem Counted.sumUp (htree : hierarchy.IsTree) {done : List String} {census : Census}
    (hcounted : Counted hierarchy done census) {name : String}
    (hdone : hierarchy.children name ⊆ done) :
    Counted hierarchy (name :: done) (census.sumUp name) := by
  intro other hother
  obtain ⟨kin, hkin, hchildren, hcount⟩ := hcounted other hother
  rw [Census.get?_sumUp, hkin, Option.map_some]
  by_cases heq : other = name
  · subst heq
    refine ⟨_, rfl, ?_, fun _ => ?_⟩
    · rw [if_pos rfl, hchildren]
    · have hbelow : ∀ child ∈ kin.children, (census.get? child).elim 0 (·.descendants + 1) =
          (hierarchy.subtree hierarchy.size child).length := by
        intro child hchild
        rw [hchildren] at hchild
        have hknown := mem_names_of_isParent ((mem_children_iff htree.distinct).mp hchild).2
        obtain ⟨below, hget, _, hlength⟩ := hcounted child hknown
        rw [hget, Option.elim_some, hlength (hdone hchild)]
      rw [if_pos rfl, Census.sum_eq_length hbelow, hchildren, htree.subtree_size hother,
        List.length_cons]
  · rw [if_neg heq]
    refine ⟨kin, rfl, hchildren, fun hmem => hcount ?_⟩
    exact (List.mem_cons.mp hmem).resolve_left heq

/-- Against the order from the root, every class is counted after its children. -/
theorem Counted.foldl_sumUp (htree : hierarchy.IsTree) {names : List String}
    (hsuffix : names <:+ hierarchy.rootFirst) :
    Counted hierarchy names (names.reverse.foldl Census.sumUp hierarchy.childLists) := by
  induction names with
  | nil =>
      intro name hname
      refine ⟨_, by rw [List.reverse_nil, List.foldl_nil, get?_childLists, if_pos hname], ?_, nofun⟩
      exact (children_eq_filter htree.distinct hname).symm
  | cons name names ih =>
      rw [List.reverse_cons, List.foldl_append]
      exact (ih ((List.suffix_cons name names).trans hsuffix)).sumUp htree
        (htree.children_subset_of_suffix hsuffix)

/-- The number of descendants of a class is the number of the other classes in its list. -/
theorem IsTree.descendantCount_eq_length (htree : hierarchy.IsTree) {name : String}
    (hname : name ∈ hierarchy.names) :
    hierarchy.descendantCount name + 1 = (hierarchy.subtree hierarchy.size name).length := by
  obtain ⟨kin, hkin, _, hcount⟩ := Counted.foldl_sumUp htree List.suffix_rfl name hname
  rw [descendantCount, census, Census.descendants, hkin, Option.elim_some]
  exact hcount (htree.rootFirst_perm_names.mem_iff.mpr hname)

theorem IsTree.descendantCount_root (htree : hierarchy.IsTree) :
    hierarchy.descendantCount Ty.objectName + 1 = hierarchy.size := by
  rw [htree.descendantCount_eq_length htree.root_mem, htree.subtree_root_perm_names.length_eq,
    length_names]

/-- There is nothing below what is not a class. -/
theorem descendantCount_eq_zero {name : String} (hname : name ∉ hierarchy.names) :
    hierarchy.descendantCount name = 0 := by
  have hnone (names : List String) {census : Census} (hnone : census.get? name = none) :
      (names.foldl Census.sumUp census).get? name = none := by
    induction names generalizing census with
    | nil => exact hnone
    | cons other names ih =>
        apply ih
        rw [Census.get?_sumUp, hnone, Option.map_none]
  rw [descendantCount, census, Census.descendants, hnone]
  · rfl
  · rw [get?_childLists, if_neg hname]

end Hierarchy

end ClassLang
