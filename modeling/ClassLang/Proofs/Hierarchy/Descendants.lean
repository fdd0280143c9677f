/-
# Classes next to their descendants

In the order from the root the list of a class, the class and then the lists of its
children, is a part of its own. So parents come before children, children of one class in
the order in which they were accepted, and a class stands together with all its
descendants. What is summed up for a class is the length of its list but for the class
itself, and so it counts exactly the classes that have the class among their ancestors.
-/

import ClassLang.Proofs.Hierarchy.Building

namespace ClassLang.Hierarchy

variable {hierarchy : Hierarchy}

namespace IsTree

variable (htree : hierarchy.IsTree) {name : String}

include htree

/-! ## How the list is arranged -/

/-- The children of a class come in the order in which they were accepted. -/
theorem siblings_in_order {parent first second : String}
    (hfirst : hierarchy.IsParent first parent) (hsecond : hierarchy.IsParent second parent)
    (horder : [first, second].Sublist hierarchy.names) :
    [first, second].Sublist hierarchy.rootFirst := by
  have hknown := htree.parent_mem first parent hfirst
  have hchildren : [first, second].Sublist (hierarchy.children parent) := by
    rw [IsParent] at hfirst hsecond
    rw [children_eq_filter htree.distinct hknown]
    simpa [hfirst, hsecond] using horder.filter fun child => hierarchy.parent? child == some parent
  have hself : ∀ {child : String}, [child].Sublist (hierarchy.subtree hierarchy.size child) := by
    intro child
    rw [List.singleton_sublist, htree.mem_subtree_size_iff]
    exact .inl rfl
  calc [first, second]
      _ = [first] ++ [second] := rfl
      List.Sublist _ ([first, second].flatMap (hierarchy.subtree hierarchy.size)) := by
        simpa using hself.append hself
      List.Sublist _ ((hierarchy.children parent).flatMap (hierarchy.subtree hierarchy.size)) :=
        hchildren.flatMap _
      List.Sublist _ (hierarchy.subtree hierarchy.size parent) := by
        rw [htree.subtree_size hknown]
        exact List.sublist_cons_self _ _
      List.Sublist _ hierarchy.rootFirst := (htree.subtree_infix_rootFirst hknown).sublist

/-! ## Counting descendants -/

/-- The number of descendants is the number of classes with the class among their
ancestors. -/
theorem descendantCount_eq_countP (hname : name ∈ hierarchy.names) :
    hierarchy.descendantCount name =
      hierarchy.names.countP fun other => name ∈ hierarchy.ancestors other := by
  obtain ⟨rest, hrest⟩ : ∃ rest, hierarchy.subtree hierarchy.size name = name :: rest :=
    ⟨_, htree.subtree_size hname⟩
  have hnodup := nodup_subtree htree.distinct htree.acyclic hierarchy.size name
  have hlength := htree.descendantCount_eq_length hname
  rw [hrest, List.nodup_cons] at hnodup
  rw [hrest, List.length_cons, Nat.add_right_cancel_iff] at hlength
  have hmem : ∀ other, other ∈ rest ↔ name ∈ hierarchy.ancestors other := by
    intro other
    have hiff := @mem_subtree_size_iff _ htree name other
    rw [hrest, List.mem_cons] at hiff
    have hself : name ∉ hierarchy.ancestors name :=
      (List.nodup_cons.mp (nodup_chain htree.acyclic (hierarchy.size + 1) (some name))).1
    by_cases hother : other = name
    · rw [hother]
      exact iff_of_false hnodup.1 hself
    · simpa [hother] using hiff
  have hperm :
      rest.Perm (hierarchy.names.filter fun other => name ∈ hierarchy.ancestors other) := by
    refine (List.perm_ext_iff_of_nodup hnodup.2 (htree.distinct.filter _)).mpr fun other => ?_
    rw [List.mem_filter, decide_eq_true_eq, hmem]
    refine ⟨fun hother => ⟨?_, hother⟩, And.right⟩
    exact mem_names_of_mem_subtree htree.distinct hname
      (htree.mem_subtree_size_iff.mpr (.inr hother))
  rw [hlength, hperm.length_eq, List.countP_eq_length_filter]

end IsTree

/-! ## The lists of built trees -/

/-- How the list of a class tree from the root is arranged, and what the numbers of
descendants count. That one class comes before another in a list without repetitions is
said by a sublist of the two. -/
structure ListedRootFirst (hierarchy : Hierarchy) : Prop where
  perm : hierarchy.rootFirst.Perm hierarchy.names
  nodup : hierarchy.rootFirst.Nodup
  head : hierarchy.rootFirst.head? = some Ty.objectName
  parents_first : ∀ child parent, hierarchy.IsParent child parent →
    [parent, child].Sublist hierarchy.rootFirst
  /-- A class and its descendants are all that stands in some part of the list. -/
  segments : ∀ name ∈ hierarchy.names, ∃ segment, segment <:+: hierarchy.rootFirst ∧
    ∀ other, other ∈ segment ↔ other = name ∨ name ∈ hierarchy.ancestors other
  siblings : ∀ parent first second, hierarchy.IsParent first parent →
    hierarchy.IsParent second parent → [first, second].Sublist hierarchy.names →
      [first, second].Sublist hierarchy.rootFirst
  counts : ∀ name ∈ hierarchy.names, hierarchy.descendantCount name =
    hierarchy.names.countP fun other => name ∈ hierarchy.ancestors other
  count_root : hierarchy.descendantCount Ty.objectName = hierarchy.size - 1

theorem IsTree.listedRootFirst (htree : hierarchy.IsTree) : ListedRootFirst hierarchy where
  perm := htree.rootFirst_perm_names
  nodup := htree.rootFirst_perm_names.nodup_iff.mpr htree.distinct
  head := by
    rw [htree.rootFirst_eq, htree.subtree_size htree.root_mem, List.head?_cons]
  parents_first _ _ := htree.parent_before_child
  segments name hname :=
    ⟨hierarchy.subtree hierarchy.size name, htree.subtree_infix_rootFirst hname,
      fun _ => htree.mem_subtree_size_iff⟩
  siblings _ _ _ := htree.siblings_in_order
  counts _ := htree.descendantCount_eq_countP
  count_root := Nat.eq_sub_of_add_eq htree.descendantCount_root

/-- Whatever a program declares, the classes that are built from it are listed from the
root with every class next to its descendants. -/
theorem build_listedRootFirst {program : Program}
    (huser : ∀ decl ∈ program.classes, decl.isBuiltin = false) {log : Log} {linked : Hierarchy}
    {pass : Pass} (hbuild : (build program.withBuiltins).runOn log = (linked, pass)) :
    ListedRootFirst linked := by
  obtain ⟨base, found, accepting, linking, hbuilds⟩ := exists_builds huser
  rw [CheckM.runOn, hbuilds.builds, Prod.mk.injEq] at hbuild
  obtain ⟨rfl, _⟩ := hbuild
  exact hbuilds.tree.listedRootFirst

/-- Classes that are declared before their parents, in two branches of different depth,
and one whose parent is unknown. -/
def branchingProgram : Program where
  classes :=
    [{ name := "Leaf", parent := some "Middle", file := "a", line := 1 },
      { name := "Second", parent := some "Top", file := "a", line := 2 },
      { name := "Lost", parent := some "Nowhere", file := "a", line := 3 },
      { name := "Middle", parent := some "Top", file := "b", line := 1 },
      { name := "Top", file := "b", line := 2 }]

theorem branchingProgram_listedRootFirst :
    ∃ linked pass, (build branchingProgram.withBuiltins).runOn { limit := 9 } = (linked, pass) ∧
      linked.rootFirst = ["Object", "String", "TextIO", "Sys", "Lost", "Top", "Second", "Middle",
        "Leaf"] ∧
      linked.descendantCount "Top" = 3 ∧ ListedRootFirst linked := by
  refine ⟨_, _, rfl, ?_, ?_, build_listedRootFirst ?_ rfl⟩
  · decide
  · decide
  · decide

end ClassLang.Hierarchy
