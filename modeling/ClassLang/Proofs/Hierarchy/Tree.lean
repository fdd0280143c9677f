/-
# Walks through a class tree

Chains of parents are computed with a bound on their length, the number of classes,
and lists of descendants are put together with a bound on how deep they go. As long as
no class is its own ancestor the bounds are never felt: a chain holds every ancestor,
and the list of a class holds every class that is below it, once.
-/

import Mathlib.Data.List.Flatten
import Mathlib.Data.List.Nodup
import Mathlib.Data.List.Perm.Subperm
import Mathlib.Logic.Relation
import ClassLang.Hierarchy.Basic

namespace ClassLang.Hierarchy

open Relation

variable {hierarchy : Hierarchy}

/-! ## Classes by name -/

/-- No two classes have the same name. -/
def Distinct (hierarchy : Hierarchy) : Prop :=
  hierarchy.names.Nodup

theorem length_names : hierarchy.names.length = hierarchy.size :=
  List.length_map _

theorem name_of_get? {name : String} {info : ClassInfo} (hget : hierarchy.get? name = some info) :
    info.name = name := by
  simpa using List.find?_some hget

theorem mem_of_get? {name : String} {info : ClassInfo} (hget : hierarchy.get? name = some info) :
    info ∈ hierarchy.classes :=
  List.mem_of_find?_eq_some hget

theorem contains_iff_mem_names {name : String} :
    hierarchy.contains name = true ↔ name ∈ hierarchy.names := by
  simp [contains, get?, names]

theorem exists_get?_of_mem_names {name : String} (hname : name ∈ hierarchy.names) :
    ∃ info, hierarchy.get? name = some info :=
  Option.isSome_iff_exists.mp (contains_iff_mem_names.mpr hname)

theorem mem_names_of_get? {name : String} {info : ClassInfo}
    (hget : hierarchy.get? name = some info) : name ∈ hierarchy.names := by
  rw [← contains_iff_mem_names, contains, hget, Option.isSome_some]

theorem get?_eq_none {name : String} (hname : name ∉ hierarchy.names) :
    hierarchy.get? name = none := by
  rwa [← Option.not_isSome_iff_eq_none, ← contains, contains_iff_mem_names]

theorem contains_congr {other : Hierarchy}
    (hnames : ∀ name, name ∈ other.names ↔ name ∈ hierarchy.names) :
    other.contains = hierarchy.contains := by
  funext name
  rw [Bool.eq_iff_iff, contains_iff_mem_names, contains_iff_mem_names, hnames]

/-- With distinct names, a class is found under its own name. -/
theorem get?_name (hdistinct : hierarchy.Distinct) {info : ClassInfo}
    (hinfo : info ∈ hierarchy.classes) : hierarchy.get? info.name = some info := by
  obtain ⟨found, hfound⟩ := exists_get?_of_mem_names (List.mem_map_of_mem hinfo)
  have heq : found = info :=
    List.inj_on_of_nodup_map hdistinct (mem_of_get? hfound) hinfo (name_of_get? hfound)
  rw [hfound, heq]

/-- What is changed under one key is found changed under that key, and nowhere else. -/
theorem find?_map_keyed {α : Type} {key : α → String} {change : α → α}
    (hchange : ∀ entry, key (change entry) = key entry) (entries : List α)
    (name other : String) :
    (entries.map fun entry => if key entry = name then change entry else entry).find?
        (fun entry => key entry == other) =
      (entries.find? fun entry => key entry == other).map
        fun entry => if other = name then change entry else entry := by
  have hkey (entry : α) :
      key (if key entry = name then change entry else entry) = key entry := by
    split
    · exact hchange entry
    · rfl
  induction entries with
  | nil => rfl
  | cons entry entries ih =>
      rw [List.map_cons, List.find?_cons, List.find?_cons, hkey]
      by_cases hother : key entry = other
      · simp [hother]
      · rwa [beq_false_of_ne hother]

section Modify

variable {name : String} {change : ClassInfo → ClassInfo}
  (hchange : ∀ info, (change info).name = info.name)

include hchange

/-- A change that keeps names is seen in the class that it is for, and nowhere else. -/
theorem get?_modify (other : String) :
    (hierarchy.modify name change).get? other =
      (hierarchy.get? other).map fun info => if other = name then change info else info :=
  find?_map_keyed hchange hierarchy.classes name other

theorem names_modify : (hierarchy.modify name change).names = hierarchy.names := by
  rw [names, modify, List.map_map, names]
  congr 1
  funext info
  by_cases hname : info.name = name
  · simp [hname, hchange]
  · simp [hname]

end Modify

/-! ## Parents -/

/-- One class is the parent of another. -/
def IsParent (hierarchy : Hierarchy) (child parent : String) : Prop :=
  hierarchy.parent? child = some parent

/-- No class is its own ancestor. -/
def Acyclic (hierarchy : Hierarchy) : Prop :=
  ∀ name, ¬ TransGen hierarchy.IsParent name name

theorem isParent_rightUnique : Relator.RightUnique hierarchy.IsParent := by
  intro child parent other hparent hother
  exact Option.some.inj (hparent.symm.trans hother)

theorem isParent_iff {child parent : String} :
    hierarchy.IsParent child parent ↔
      ∃ info, hierarchy.get? child = some info ∧ info.parent = some parent := by
  simp [IsParent, parent?, Option.bind_eq_some_iff]

theorem mem_names_of_isParent {child parent : String} (hparent : hierarchy.IsParent child parent) :
    child ∈ hierarchy.names := by
  obtain ⟨info, hget, _⟩ := isParent_iff.mp hparent
  exact mem_names_of_get? hget

/-! ## Chains -/

theorem reaches_of_mem_chain {steps : Nat} {start name : String}
    (hname : name ∈ hierarchy.chain steps (some start)) :
    ReflTransGen hierarchy.IsParent start name := by
  induction steps generalizing start with
  | zero => cases hname
  | succ steps ih =>
      rw [chain, List.mem_cons] at hname
      rcases hname with rfl | hrest
      · exact .refl
      · cases hparent : hierarchy.parent? start with
        | none =>
            rw [hparent] at hrest
            cases steps <;> cases hrest
        | some parent =>
            rw [hparent] at hrest
            exact .head hparent (ih hrest)

theorem nodup_chain (hacyclic : hierarchy.Acyclic) (steps : Nat) (start : Option String) :
    (hierarchy.chain steps start).Nodup := by
  induction steps generalizing start with
  | zero => cases start <;> exact List.nodup_nil
  | succ steps ih =>
      cases start with
      | none => exact List.nodup_nil
      | some name =>
          refine List.nodup_cons.mpr ⟨fun hmem => ?_, ih _⟩
          cases hparent : hierarchy.parent? name with
          | none =>
              rw [hparent] at hmem
              cases steps <;> cases hmem
          | some parent =>
              rw [hparent] at hmem
              exact hacyclic name (.head' hparent (reaches_of_mem_chain hmem))

/-- A chain either uses up its steps on classes that all have a parent, or goes up
to a class without one. -/
theorem chain_full_or_complete (steps : Nat) (start : String) :
    ((hierarchy.chain steps (some start)).length = steps ∧
      ∀ name ∈ hierarchy.chain steps (some start), name ∈ hierarchy.names) ∨
    (∃ name ∈ hierarchy.chain steps (some start), hierarchy.parent? name = none) ∧
      ∀ name, ReflTransGen hierarchy.IsParent start name →
        name ∈ hierarchy.chain steps (some start) := by
  induction steps generalizing start with
  | zero => exact .inl ⟨rfl, by simp [chain]⟩
  | succ steps ih =>
      cases hparent : hierarchy.parent? start with
      | none =>
          have hchain : hierarchy.chain (steps + 1) (some start) = [start] := by
            rw [chain, hparent]
            cases steps <;> rfl
          refine .inr ⟨⟨start, by simp [hchain], hparent⟩, fun name hreach => ?_⟩
          rcases hreach.cases_head with rfl | ⟨next, hnext, _⟩
          · simp [hchain]
          · rw [IsParent, hparent] at hnext
            cases hnext
      | some parent =>
          have hchain : hierarchy.chain (steps + 1) (some start) =
              start :: hierarchy.chain steps (some parent) := by
            rw [chain, hparent]
          rw [hchain]
          rcases ih parent with ⟨hlength, hnames⟩ | ⟨⟨top, htop, hnone⟩, hreaches⟩
          · refine .inl ⟨by rw [List.length_cons, hlength], ?_⟩
            rw [List.forall_mem_cons]
            exact ⟨mem_names_of_isParent hparent, hnames⟩
          · refine .inr ⟨⟨top, List.mem_cons_of_mem _ htop, hnone⟩, fun name hreach => ?_⟩
            rcases hreach.cases_head with rfl | ⟨next, hnext, hrest⟩
            · exact List.mem_cons_self
            · obtain rfl := isParent_rightUnique hparent hnext
              exact List.mem_cons_of_mem _ (hreaches name hrest)

/-- Without cycles the bound on chains is never reached. -/
theorem chain_complete (hacyclic : hierarchy.Acyclic) (start : String) :
    (∃ name ∈ hierarchy.chain (hierarchy.size + 1) (some start),
      hierarchy.parent? name = none) ∧
    ∀ name, ReflTransGen hierarchy.IsParent start name →
      name ∈ hierarchy.chain (hierarchy.size + 1) (some start) := by
  rcases @chain_full_or_complete hierarchy (hierarchy.size + 1) start with ⟨hlength, hnames⟩ | h
  · have hle := ((nodup_chain hacyclic _ _).subperm hnames).length_le
    rw [hlength, length_names] at hle
    exact absurd hle (Nat.not_succ_le_self _)
  · exact h

/-- The bound on chains is not felt as long as a chain stays below it. -/
theorem chain_succ_of_length_lt {steps : Nat} {start : Option String}
    (hlength : (hierarchy.chain steps start).length < steps) :
    hierarchy.chain (steps + 1) start = hierarchy.chain steps start := by
  induction steps generalizing start with
  | zero => exact absurd hlength (Nat.not_lt_zero _)
  | succ steps ih =>
      cases start with
      | none => rfl
      | some name =>
          rw [chain, List.length_cons, Nat.add_lt_add_iff_right] at hlength
          rw [chain, ih hlength, chain]

theorem ancestors_eq_nil {name : String} {info : ClassInfo}
    (hget : hierarchy.get? name = some info) (hinfo : info.parent = none) :
    hierarchy.ancestors name = [] := by
  rw [ancestors, parent?, hget, Option.bind_some, hinfo]
  cases hierarchy.size <;> rfl

theorem mem_chain_iff (hacyclic : hierarchy.Acyclic) {start name : String} :
    name ∈ hierarchy.chain (hierarchy.size + 1) (some start) ↔
      ReflTransGen hierarchy.IsParent start name :=
  ⟨reaches_of_mem_chain, (chain_complete hacyclic start).2 name⟩

theorem isSubclass_iff_mem_chain {sub ancestor : String} :
    hierarchy.isSubclass sub ancestor = true ↔
      sub ∈ hierarchy.names ∧ ancestor ∈ hierarchy.chain (hierarchy.size + 1) (some sub) := by
  rw [chain, List.mem_cons, @eq_comm _ ancestor]
  simp only [isSubclass, Bool.and_eq_true, Bool.or_eq_true, beq_iff_eq, List.contains_iff_mem,
    contains_iff_mem_names, ancestors]

theorem reaches_of_isSubclass {sub ancestor : String}
    (hsub : hierarchy.isSubclass sub ancestor = true) :
    ReflTransGen hierarchy.IsParent sub ancestor :=
  reaches_of_mem_chain (isSubclass_iff_mem_chain.mp hsub).2

theorem isSubclass_iff (hacyclic : hierarchy.Acyclic) {sub ancestor : String} :
    hierarchy.isSubclass sub ancestor = true ↔
      sub ∈ hierarchy.names ∧ ReflTransGen hierarchy.IsParent sub ancestor := by
  rw [isSubclass_iff_mem_chain, mem_chain_iff hacyclic]

/-! ## Descendants -/

/-- The classes whose parent is a given one, in order. -/
def children (hierarchy : Hierarchy) (name : String) : List String :=
  if hierarchy.contains name then
    (hierarchy.classes.filter fun info => info.parent == some name).map ClassInfo.name
  else []

/-- A class and its descendants down to `depth` levels, each class before its
children. -/
def subtree (hierarchy : Hierarchy) : (depth : Nat) → String → List String
  | 0, name => [name]
  | depth + 1, name => name :: (hierarchy.children name).flatMap (hierarchy.subtree depth)

theorem mem_children_iff (hdistinct : hierarchy.Distinct) {child parent : String} :
    child ∈ hierarchy.children parent ↔
      parent ∈ hierarchy.names ∧ hierarchy.IsParent child parent := by
  rw [isParent_iff]
  by_cases hparent : parent ∈ hierarchy.names
  · rw [children, if_pos (contains_iff_mem_names.mpr hparent), List.mem_map]
    constructor
    · rintro ⟨info, hinfo, rfl⟩
      rw [List.mem_filter, beq_iff_eq] at hinfo
      exact ⟨hparent, info, get?_name hdistinct hinfo.1, hinfo.2⟩
    · rintro ⟨_, info, hget, hinfo⟩
      exact ⟨info, by simp [mem_of_get? hget, hinfo], name_of_get? hget⟩
  · rw [children, if_neg (contains_iff_mem_names.not.mpr hparent)]
    simp [hparent]

/-- The children of a class are listed as all classes are. -/
theorem children_eq_filter (hdistinct : hierarchy.Distinct) {name : String}
    (hname : name ∈ hierarchy.names) :
    hierarchy.children name =
      hierarchy.names.filter fun child => hierarchy.parent? child == some name := by
  rw [children, if_pos (contains_iff_mem_names.mpr hname), names, List.filter_map]
  congr 1
  apply List.filter_congr
  intro info hinfo
  rw [Function.comp_apply, parent?, get?_name hdistinct hinfo, Option.bind_some]

theorem nodup_children (hdistinct : hierarchy.Distinct) (parent : String) :
    (hierarchy.children parent).Nodup := by
  unfold children
  split
  · exact hdistinct.sublist (List.filter_sublist.map _)
  · exact List.nodup_nil

theorem reaches_of_mem_subtree (hdistinct : hierarchy.Distinct) {depth : Nat} {name top : String}
    (hname : name ∈ hierarchy.subtree depth top) : ReflTransGen hierarchy.IsParent name top := by
  induction depth generalizing top with
  | zero =>
      obtain rfl := List.mem_singleton.mp hname
      exact .refl
  | succ depth ih =>
      rw [subtree, List.mem_cons, List.mem_flatMap] at hname
      rcases hname with rfl | ⟨child, hchild, hname⟩
      · exact .refl
      · exact .tail (ih hname) ((mem_children_iff hdistinct).mp hchild).2

theorem mem_names_of_mem_subtree (hdistinct : hierarchy.Distinct) {depth : Nat}
    {name top : String} (htop : top ∈ hierarchy.names)
    (hname : name ∈ hierarchy.subtree depth top) : name ∈ hierarchy.names := by
  rcases (reaches_of_mem_subtree hdistinct hname).cases_head with rfl | ⟨parent, hparent, _⟩
  · exact htop
  · exact mem_names_of_isParent hparent

/-- The children of what is listed are listed one level deeper. -/
theorem mem_subtree_of_isParent (hdistinct : hierarchy.Distinct) {depth : Nat}
    {child parent top : String} (hparent : hierarchy.IsParent child parent)
    (hknown : parent ∈ hierarchy.names) (hmem : parent ∈ hierarchy.subtree depth top) :
    child ∈ hierarchy.subtree (depth + 1) top := by
  have hchild := (mem_children_iff hdistinct).mpr ⟨hknown, hparent⟩
  induction depth generalizing top with
  | zero =>
      obtain rfl := List.mem_singleton.mp hmem
      rw [subtree, List.mem_cons, List.mem_flatMap]
      exact .inr ⟨child, hchild, List.mem_singleton_self child⟩
  | succ depth ih =>
      rw [subtree, List.mem_cons, List.mem_flatMap] at hmem ⊢
      rcases hmem with rfl | ⟨next, hnext, hmem⟩
      · exact .inr ⟨child, hchild, List.mem_cons_self⟩
      · exact .inr ⟨next, hnext, ih hmem⟩

theorem mem_subtree_of_mem_chain (hdistinct : hierarchy.Distinct)
    (hknown : ∀ child parent, hierarchy.IsParent child parent → parent ∈ hierarchy.names)
    {depth : Nat} {name top : String} (htop : top ∈ hierarchy.chain (depth + 1) (some name)) :
    name ∈ hierarchy.subtree depth top := by
  induction depth generalizing name with
  | zero =>
      rw [chain, List.mem_cons] at htop
      rcases htop with rfl | hrest
      · exact List.mem_singleton_self top
      · cases hrest
  | succ depth ih =>
      rw [chain, List.mem_cons] at htop
      rcases htop with rfl | hrest
      · exact List.mem_cons_self
      · cases hparent : hierarchy.parent? name with
        | none =>
            rw [hparent] at hrest
            cases hrest
        | some parent =>
            rw [hparent] at hrest
            exact mem_subtree_of_isParent hdistinct hparent (hknown name parent hparent) (ih hrest)

/-- Two children of one class have no descendant in common. -/
theorem disjoint_subtree_of_siblings (hdistinct : hierarchy.Distinct)
    (hacyclic : hierarchy.Acyclic) {depth : Nat} {top child other : String}
    (hchild : hierarchy.IsParent child top) (hother : hierarchy.IsParent other top)
    (hne : child ≠ other) :
    (hierarchy.subtree depth child).Disjoint (hierarchy.subtree depth other) := by
  -- the upper of two ancestors of one class is an ancestor of the lower
  have habove : ∀ {lower upper : String}, hierarchy.IsParent lower top →
      hierarchy.IsParent upper top → lower ≠ upper →
      ¬ ReflTransGen hierarchy.IsParent lower upper := by
    intro lower upper hlower hupper hne hreach
    rcases hreach.cases_head with heq | ⟨next, hnext, hrest⟩
    · exact hne heq
    · obtain rfl := isParent_rightUnique hlower hnext
      exact hacyclic upper (.head' hupper hrest)
  intro name hname hname'
  rcases ReflTransGen.total_of_right_unique isParent_rightUnique
    (reaches_of_mem_subtree hdistinct hname) (reaches_of_mem_subtree hdistinct hname') with h | h
  · exact habove hchild hother hne h
  · exact habove hother hchild hne.symm h

theorem nodup_subtree (hdistinct : hierarchy.Distinct) (hacyclic : hierarchy.Acyclic)
    (depth : Nat) (top : String) : (hierarchy.subtree depth top).Nodup := by
  induction depth generalizing top with
  | zero => exact List.nodup_singleton top
  | succ depth ih =>
      rw [subtree, List.nodup_cons, List.nodup_flatMap]
      refine ⟨fun hmem => ?_, fun child _ => ih child, ?_⟩
      · obtain ⟨child, hchild, hmem⟩ := List.mem_flatMap.mp hmem
        have hparent := ((mem_children_iff hdistinct).mp hchild).2
        exact hacyclic top (.tail' (reaches_of_mem_subtree hdistinct hmem) hparent)
      · refine (nodup_children hdistinct top).imp_of_mem fun hchild hother hne => ?_
        exact disjoint_subtree_of_siblings hdistinct hacyclic
          ((mem_children_iff hdistinct).mp hchild).2 ((mem_children_iff hdistinct).mp hother).2 hne

/-! ## Parents before children -/

/-- In the list every class comes after its parent, if that is not one of `done`. -/
def ParentsFirst (hierarchy : Hierarchy) : (done names : List String) → Prop
  | _, [] => True
  | done, name :: names =>
    (∀ parent, hierarchy.IsParent name parent → parent ∈ done) ∧
      hierarchy.ParentsFirst (name :: done) names

theorem ParentsFirst.mono {names done more : List String}
    (hfirst : hierarchy.ParentsFirst done names) (hsub : done ⊆ more) :
    hierarchy.ParentsFirst more names := by
  induction names generalizing done more with
  | nil => trivial
  | cons name names ih =>
      exact ⟨fun parent hparent => hsub (hfirst.1 parent hparent),
        ih hfirst.2 (List.cons_subset_cons name hsub)⟩

theorem ParentsFirst.append {names more done : List String}
    (hnames : hierarchy.ParentsFirst done names) (hmore : hierarchy.ParentsFirst done more) :
    hierarchy.ParentsFirst done (names ++ more) := by
  induction names generalizing done with
  | nil => exact hmore
  | cons name names ih =>
      exact ⟨hnames.1, ih hnames.2 (hmore.mono (List.subset_cons_self name done))⟩

theorem parentsFirst_subtree (hdistinct : hierarchy.Distinct) {done : List String} {top : String}
    (htop : ∀ parent, hierarchy.IsParent top parent → parent ∈ done) (depth : Nat) :
    hierarchy.ParentsFirst done (hierarchy.subtree depth top) := by
  induction depth generalizing done top with
  | zero => exact ⟨htop, trivial⟩
  | succ depth ih =>
      have hchildren : ∀ child ∈ hierarchy.children top, hierarchy.IsParent child top :=
        fun child hchild => ((mem_children_iff hdistinct).mp hchild).2
      rw [subtree]
      refine ⟨htop, ?_⟩
      generalize hierarchy.children top = children at hchildren
      induction children with
      | nil => trivial
      | cons child children ihChildren =>
          rw [List.forall_mem_cons] at hchildren
          refine .append (@ih (top :: done) child fun parent hparent => ?_) (ihChildren hchildren.2)
          rw [isParent_rightUnique hparent hchildren.1]
          exact List.mem_cons_self

/-! ## Trees -/

/-- A class tree: every class has a parent but the root. -/
structure IsTree (hierarchy : Hierarchy) : Prop where
  distinct : hierarchy.Distinct
  acyclic : hierarchy.Acyclic
  root_mem : Ty.objectName ∈ hierarchy.names
  parent_mem : ∀ child parent, hierarchy.IsParent child parent → parent ∈ hierarchy.names
  eq_root : ∀ name ∈ hierarchy.names, hierarchy.parent? name = none → name = Ty.objectName

namespace IsTree

theorem mem_names_of_reaches (htree : hierarchy.IsTree) {name top : String}
    (hname : name ∈ hierarchy.names) (hreach : ReflTransGen hierarchy.IsParent name top) :
    top ∈ hierarchy.names := by
  rcases hreach.cases_tail with rfl | ⟨child, _, hparent⟩
  · exact hname
  · exact htree.parent_mem child top hparent

/-- A tree is told by the names of its classes and by their parents. -/
theorem congr (htree : hierarchy.IsTree) {other : Hierarchy}
    (hnames : other.names.Perm hierarchy.names) (hparent : other.parent? = hierarchy.parent?) :
    other.IsTree := by
  have hisParent : other.IsParent = hierarchy.IsParent := by
    funext child parent
    rw [IsParent, hparent, IsParent]
  exact {
    distinct := hnames.nodup_iff.mpr htree.distinct
    acyclic := by
      rw [Acyclic, hisParent]
      exact htree.acyclic
    root_mem := hnames.mem_iff.mpr htree.root_mem
    parent_mem := by
      rw [hisParent]
      intro child parent hparent
      exact hnames.mem_iff.mpr (htree.parent_mem child parent hparent)
    eq_root := by
      rw [hparent]
      exact fun name hname => htree.eq_root name (hnames.mem_iff.mp hname) }

/-- The chain of every class ends at the root. -/
theorem root_mem_chain (htree : hierarchy.IsTree) {name : String}
    (hname : name ∈ hierarchy.names) :
    Ty.objectName ∈ hierarchy.chain (hierarchy.size + 1) (some name) := by
  obtain ⟨⟨top, htop, hnone⟩, _⟩ := chain_complete htree.acyclic name
  have hknown := htree.mem_names_of_reaches hname (reaches_of_mem_chain htop)
  rwa [htree.eq_root top hknown hnone] at htop

theorem parent?_root (htree : hierarchy.IsTree) : hierarchy.parent? Ty.objectName = none := by
  obtain ⟨⟨top, htop, hnone⟩, _⟩ := chain_complete htree.acyclic Ty.objectName
  have hknown := htree.mem_names_of_reaches htree.root_mem (reaches_of_mem_chain htop)
  rwa [htree.eq_root top hknown hnone] at hnone

/-- What passes from parents to children holds of all classes. -/
@[elab_as_elim]
theorem induction {holds : String → Prop} (htree : hierarchy.IsTree)
    (hstep : ∀ name ∈ hierarchy.names,
      (∀ parent, hierarchy.IsParent name parent → holds parent) → holds name)
    {name : String} (hname : name ∈ hierarchy.names) : holds name := by
  have hreach := reaches_of_mem_chain (htree.root_mem_chain hname)
  clear hname
  induction hreach using ReflTransGen.head_induction_on with
  | refl =>
      refine hstep _ htree.root_mem fun parent hparent => ?_
      rw [IsParent, htree.parent?_root] at hparent
      cases hparent
  | @head child next hnext _ ih =>
      refine hstep child (mem_names_of_isParent hnext) fun parent hparent => ?_
      rwa [isParent_rightUnique hparent hnext]

/-! ## Without the bounds -/

section Bounds

variable (htree : hierarchy.IsTree) {name : String}

include htree

theorem length_ancestors_lt (hname : name ∈ hierarchy.names) :
    (hierarchy.ancestors name).length < hierarchy.size := by
  have hnodup := nodup_chain htree.acyclic (hierarchy.size + 1) (some name)
  have hknown : ∀ other ∈ hierarchy.chain (hierarchy.size + 1) (some name),
      other ∈ hierarchy.names :=
    fun other hother => htree.mem_names_of_reaches hname (reaches_of_mem_chain hother)
  have hlength := (hnodup.subperm hknown).length_le
  rwa [chain, List.length_cons, length_names] at hlength

theorem ancestors_eq_cons {parent : String} (hparent : hierarchy.IsParent name parent) :
    hierarchy.ancestors name = parent :: hierarchy.ancestors parent := by
  have hshort := htree.length_ancestors_lt (mem_names_of_isParent hparent)
  have hparent : hierarchy.parent? name = some parent := hparent
  rw [ancestors, hparent] at hshort ⊢
  rw [← chain_succ_of_length_lt hshort, chain, ancestors]

/-- All depths that reach from a class to the lowest possible level give the same list. -/
theorem subtree_eq_of_deep {depth other : Nat} (hname : name ∈ hierarchy.names)
    (hdepth : hierarchy.size ≤ depth + (hierarchy.ancestors name).length)
    (hother : hierarchy.size ≤ other + (hierarchy.ancestors name).length) :
    hierarchy.subtree depth name = hierarchy.subtree other name := by
  have hlevel := htree.length_ancestors_lt hname
  induction depth generalizing other name with
  | zero => omega
  | succ depth ih =>
      cases other with
      | zero => omega
      | succ other =>
          have hchildren : ∀ child ∈ hierarchy.children name,
              hierarchy.subtree depth child = hierarchy.subtree other child := by
            intro child hchild
            have hparent := ((mem_children_iff htree.distinct).mp hchild).2
            have hknown := mem_names_of_isParent hparent
            -- a child is one level further down
            have hlower : (hierarchy.ancestors child).length =
                (hierarchy.ancestors name).length + 1 := by
              rw [htree.ancestors_eq_cons hparent, List.length_cons]
            exact ih hknown (by omega) (by omega) (htree.length_ancestors_lt hknown)
          rw [subtree, subtree, List.flatMap_congr hchildren]

/-- In a tree the list of a class is the class and the lists of its children. -/
theorem subtree_size (hname : name ∈ hierarchy.names) :
    hierarchy.subtree hierarchy.size name =
      name :: (hierarchy.children name).flatMap (hierarchy.subtree hierarchy.size) := by
  rw [← subtree]
  exact htree.subtree_eq_of_deep hname (Nat.le_add_right _ _) (by omega)

/-- The list of a class holds the class and its descendants. -/
theorem mem_subtree_size_iff {other : String} :
    other ∈ hierarchy.subtree hierarchy.size name ↔
      other = name ∨ name ∈ hierarchy.ancestors other := by
  have hchain : name ∈ hierarchy.chain (hierarchy.size + 1) (some other) ↔
      other = name ∨ name ∈ hierarchy.ancestors other := by
    rw [chain, List.mem_cons, eq_comm, ancestors]
  rw [← hchain]
  constructor
  · intro hother
    exact (mem_chain_iff htree.acyclic).mpr (reaches_of_mem_subtree htree.distinct hother)
  · exact mem_subtree_of_mem_chain htree.distinct htree.parent_mem

/-- The list of the root holds every class once. -/
theorem subtree_root_perm_names :
    (hierarchy.subtree hierarchy.size Ty.objectName).Perm hierarchy.names := by
  refine (List.perm_ext_iff_of_nodup ?_ htree.distinct).mpr fun name => ?_
  · exact nodup_subtree htree.distinct htree.acyclic _ _
  constructor
  · intro hname
    exact mem_names_of_mem_subtree htree.distinct htree.root_mem hname
  · intro hname
    exact mem_subtree_of_mem_chain htree.distinct htree.parent_mem (htree.root_mem_chain hname)

end Bounds

end IsTree

end ClassLang.Hierarchy
