/-
# Classes in another order

A hierarchy is looked at by name, so the order of its classes matters only for lists
of children. Two hierarchies with the same classes answer every question about types
and members alike, and have the same descendants. The trees that are built from the
same declarations in two orders are such hierarchies, and the same is reported.
-/

import Mathlib.Data.List.Find
import ClassLang.Hierarchy.Compatible
import ClassLang.Proofs.Diagnostic.Yielding
import ClassLang.Proofs.Hierarchy.Building

namespace ClassLang.Hierarchy

open Relation CheckM

variable {hierarchy other : Hierarchy}

/-! ## Questions about classes -/

/-- The same classes in whatever order, each found under its name. -/
structure Reordered (hierarchy other : Hierarchy) : Prop where
  perm : other.classes.Perm hierarchy.classes
  get? : other.get? = hierarchy.get?

/-- With distinct names it is enough to find the same classes. -/
theorem reordered_of_distinct (hdistinct : hierarchy.Distinct) (hother : other.Distinct)
    (hget : other.get? = hierarchy.get?) : Reordered hierarchy other where
  perm := by
    have hmem {both : Hierarchy} (hboth : both.Distinct) (info : ClassInfo) :
        info ∈ both.classes ↔ both.get? info.name = some info :=
      ⟨get?_name hboth, mem_of_get?⟩
    refine (List.perm_ext_iff_of_nodup (.of_map _ hother) (.of_map _ hdistinct)).mpr fun info => ?_
    rw [hmem hother, hmem hdistinct, hget]
  get? := hget

namespace Reordered

theorem refl (hierarchy : Hierarchy) : Reordered hierarchy hierarchy :=
  ⟨.refl _, rfl⟩

theorem contains (hsame : Reordered hierarchy other) : other.contains = hierarchy.contains := by
  funext name
  rw [Hierarchy.contains, hsame.get?, Hierarchy.contains]

theorem names_perm (hsame : Reordered hierarchy other) : other.names.Perm hierarchy.names :=
  hsame.perm.map ClassInfo.name

theorem distinct (hsame : Reordered hierarchy other) (hdistinct : hierarchy.Distinct) :
    other.Distinct :=
  hsame.names_perm.nodup_iff.mpr hdistinct

theorem size (hsame : Reordered hierarchy other) : other.size = hierarchy.size :=
  hsame.perm.length_eq

theorem parent? (hsame : Reordered hierarchy other) : other.parent? = hierarchy.parent? := by
  funext name
  rw [Hierarchy.parent?, hsame.get?, Hierarchy.parent?]

theorem chain (hsame : Reordered hierarchy other) : other.chain = hierarchy.chain := by
  funext steps start
  induction steps generalizing start with
  | zero => rfl
  | succ steps ih =>
      cases start with
      | none => rfl
      | some name => rw [Hierarchy.chain, Hierarchy.chain, hsame.parent?, ih]

theorem isSubclass (hsame : Reordered hierarchy other) :
    other.isSubclass = hierarchy.isSubclass := by
  funext sub ancestor
  rw [Hierarchy.isSubclass, Hierarchy.isSubclass, ancestors, ancestors, hsame.contains, hsame.chain,
    hsame.size, hsame.parent?]

theorem compatible (hsame : Reordered hierarchy other) :
    other.compatible = hierarchy.compatible := by
  funext expected actual
  induction expected generalizing actual with
  | array elem ih => cases actual <;> simp [Hierarchy.compatible, ih]
  | named className => cases actual <;> simp [Hierarchy.compatible, hsame.isSubclass]
  | _ => cases actual <;> rfl

theorem validType (hsame : Reordered hierarchy other) : other.validType = hierarchy.validType :=
  validType_congr hsame.contains

theorem field? (hsame : Reordered hierarchy other) : other.field? = hierarchy.field? := by
  funext className name
  rw [Hierarchy.field?, hsame.get?, Hierarchy.field?]

theorem method? (hsame : Reordered hierarchy other) : other.method? = hierarchy.method? := by
  funext className name
  rw [Hierarchy.method?, hsame.get?, Hierarchy.method?]

theorem children_perm (hsame : Reordered hierarchy other) (name : String) :
    (other.children name).Perm (hierarchy.children name) := by
  rw [children, children, hsame.contains]
  split
  · exact (hsame.perm.filter _).map _
  · exact .refl _

theorem subtree_perm (hsame : Reordered hierarchy other) (depth : Nat) (name : String) :
    (other.subtree depth name).Perm (hierarchy.subtree depth name) := by
  induction depth generalizing name with
  | zero => rfl
  | succ depth ih => exact .cons name (.flatMap (hsame.children_perm name) fun child _ => ih child)

theorem isTree (hsame : Reordered hierarchy other) (htree : hierarchy.IsTree) : other.IsTree :=
  htree.congr hsame.names_perm hsame.parent?

theorem descendantCount (hsame : Reordered hierarchy other) (htree : hierarchy.IsTree) :
    other.descendantCount = hierarchy.descendantCount := by
  funext name
  by_cases hname : name ∈ hierarchy.names
  · have hother := (hsame.isTree htree).descendantCount_eq_length
      (hsame.names_perm.mem_iff.mpr hname)
    rw [hsame.size, (hsame.subtree_perm _ _).length_eq] at hother
    exact Nat.add_right_cancel (hother.trans (htree.descendantCount_eq_length hname).symm)
  · rw [descendantCount_eq_zero hname,
      descendantCount_eq_zero fun hother => hname (hsame.names_perm.mem_iff.mp hother)]

theorem linkRecord? (hsame : Reordered hierarchy other) :
    other.linkRecord? = hierarchy.linkRecord? := by
  funext name
  rw [Hierarchy.linkRecord?, hsame.get?, Hierarchy.linkRecord?]

theorem wants (hsame : Reordered hierarchy other) : other.Wants = hierarchy.Wants := by
  funext child parent
  rw [Wants, hsame.get?, Wants]

/-- Which classes have to do without a parent does not depend on their order. -/
theorem mem_defaulted_iff (hsame : Reordered hierarchy other) {name : String} :
    name ∈ other.linkedNames ∧ other.Defaulted other.linkedNames name ↔
      name ∈ hierarchy.linkedNames ∧ hierarchy.Defaulted hierarchy.linkedNames name := by
  have hextendable : other.Extendable = hierarchy.Extendable := by
    funext name
    rw [Extendable, hsame.get?, Extendable]
  have hmem (name : String) : name ∈ other.linkedNames ↔ name ∈ hierarchy.linkedNames := by
    rw [mem_linkedNames, mem_linkedNames, hsame.names_perm.mem_iff]
  have hlinks : other.Links other.linkedNames = hierarchy.Links hierarchy.linkedNames := by
    funext child parent
    rw [Links, Links, hmem, hsame.wants, hextendable]
  rw [hmem, Defaulted, Defaulted, hlinks, hsame.wants, hextendable]

end Reordered

/-! ## Accepting in another order -/

theorem contains_of_accepts {decl : ClassDecl} {after : Hierarchy}
    (haccepts : Accepts hierarchy [decl] after) {name : String} (hname : decl.name ≠ name) :
    after.contains name = hierarchy.contains name := by
  simp [contains, haccepts.lookup, declared?, hname]

/-- Declarations with different names are accepted or rejected each on its own. -/
theorem exists_foldlM_accept_of_nodup {decls : List ClassDecl} (hdistinct : hierarchy.Distinct)
    (hnodup : (decls.map ClassDecl.name).Nodup) :
    ∃ after, Reports (decls.foldlM accept hierarchy) after
      (decls.filterMap hierarchy.rejection?) := by
  induction decls generalizing hierarchy with
  | nil => exact ⟨hierarchy, .pure _⟩
  | cons decl decls ih =>
      rw [List.map_cons, List.nodup_cons] at hnodup
      obtain ⟨middle, hfirst, hmiddle, _⟩ := exists_accept hdistinct decl
      obtain ⟨after, hrest⟩ := ih hmiddle.distinct hnodup.2
      -- the first declaration takes no name of a later one
      have hsame : decls.filterMap middle.rejection? = decls.filterMap hierarchy.rejection? := by
        apply List.filterMap_congr
        intro later hlater
        have hname : decl.name ≠ later.name :=
          fun heq => hnodup.1 (heq ▸ List.mem_map_of_mem hlater)
        rw [rejection?, contains_of_accepts hmiddle hname, rejection?]
      refine ⟨after, ?_⟩
      rw [List.foldlM_cons, List.filterMap_cons, ← hsame]
      cases hrejection : hierarchy.rejection? decl with
      | none =>
          rw [hrejection] at hfirst
          exact Reports.bind hfirst hrest
      | some record =>
          rw [hrejection] at hfirst
          exact Reports.bind hfirst hrest

/-- With different names, the declaration that is found by its name does not depend on
the order. -/
theorem find?_perm {decls shuffled : List ClassDecl} (hperm : shuffled.Perm decls)
    (hnodup : (decls.map ClassDecl.name).Nodup) {name : String} {holds : ClassDecl → Bool}
    (hholds : ∀ decl, holds decl = true → decl.name = name) :
    shuffled.find? holds = decls.find? holds := by
  refine List.find?_eq_find?_of_perm hperm ?_
  rintro decl ⟨hdecl, hfound⟩ later ⟨hlater, hlaterFound⟩
  exact List.inj_on_of_nodup_map hnodup (hperm.mem_iff.mp hdecl) (hperm.mem_iff.mp hlater)
    ((hholds decl hfound).trans (hholds later hlaterFound).symm)

theorem declared?_perm {decls shuffled : List ClassDecl} (hperm : shuffled.Perm decls)
    (hnodup : (decls.map ClassDecl.name).Nodup) : declared? shuffled = declared? decls := by
  funext name
  unfold declared?
  congr 1
  apply find?_perm hperm hnodup
  exact fun decl hfound => beq_iff_eq.mp hfound

/-! ## Linking in another order -/

/-- A class is what it was before the linking, with the parent that it got. -/
theorem SameClasses.get?_eq (hsame : SameClasses hierarchy other) (name : String) :
    other.get? name =
      (hierarchy.get? name).map fun info => { info with parent := other.parent? name } := by
  have hmap := hsame.2 name
  cases hget : other.get? name with
  | none =>
      rw [hget, Option.map_none, eq_comm, Option.map_eq_none_iff] at hmap
      rw [hmap, Option.map_none]
  | some info =>
      rw [hget, Option.map_some, eq_comm, Option.map_eq_some_iff] at hmap
      obtain ⟨before, hbefore, heq⟩ := hmap
      rw [hbefore, Option.map_some, parent?, hget, Option.bind_some]
      have hinfo := congrArg (fun bare : ClassInfo => { bare with parent := info.parent }) heq
      exact congrArg some hinfo.symm

namespace Assembles

variable {program shuffled : Program} {base linked : Hierarchy}
  {accepting linking : List Diagnostic} {otherBase otherLinked : Hierarchy}
  {otherAccepting otherLinking : List Diagnostic}

theorem isParent_iff (hall : Assembles program base linked accepting linking)
    {name parent : String} :
    linked.IsParent name parent ↔
      (name ∈ base.linkedNames ∧ base.Defaulted base.linkedNames name) ∧ parent = Ty.objectName ∨
        ¬ (name ∈ base.linkedNames ∧ base.Defaulted base.linkedNames name) ∧
          base.Wants name parent := by
  rw [← hall.same.defaulted, ← hall.same.wants]
  constructor
  · intro hparent
    have hmem := hall.progress.mem_of_isParent hparent
    by_cases hdefaulted : linked.Defaulted base.linkedNames name
    · have hroot := hall.progress.defaulted name hmem hdefaulted
      exact .inl ⟨⟨hmem, hdefaulted⟩, isParent_rightUnique hparent hroot⟩
    · obtain ⟨wanted, hwants⟩ := hall.progress.exists_wants hmem
      have hwanted := hall.progress.kept name hmem hdefaulted wanted hwants
      obtain rfl := isParent_rightUnique hparent hwanted
      exact .inr ⟨fun h => hdefaulted h.2, hwants⟩
  · rintro (⟨⟨hmem, hdefaulted⟩, rfl⟩ | ⟨hkept, hwants⟩)
    · exact hall.progress.defaulted name hmem hdefaulted
    · have hmem : name ∈ base.linkedNames := by
        rw [mem_linkedNames, ← hall.same.1]
        exact ⟨hwants.mem_names, hwants.1⟩
      exact hall.progress.kept name hmem (fun h => hkept ⟨hmem, h⟩) parent hwants

variable (hall : Assembles program base linked accepting linking)
  (hother : Assembles shuffled otherBase otherLinked otherAccepting otherLinking)
  (hbase : Reordered base otherBase)

include hall hother hbase

theorem reordered : Reordered linked otherLinked := by
  have hparent : otherLinked.parent? = linked.parent? := by
    funext name
    ext parent
    show otherLinked.IsParent name parent ↔ linked.IsParent name parent
    rw [hother.isParent_iff, hall.isParent_iff, hbase.mem_defaulted_iff, hbase.wants]
  apply reordered_of_distinct
  · rw [Distinct, hall.same.1]
    exact hall.accepted.distinct
  · rw [Distinct, hother.same.1]
    exact hother.accepted.distinct
  · funext name
    rw [hother.same.get?_eq, hall.same.get?_eq, hbase.get?, hparent]

/-- Each class that has to do without a parent is reported once in any order. -/
theorem linking_perm : otherLinking.Perm linking := by
  obtain ⟨defaulted, hnodup, hmem, hrecords⟩ := hall.records
  obtain ⟨otherDefaulted, hotherNodup, hotherMem, hotherRecords⟩ := hother.records
  have hdefaulted : otherDefaulted.Perm defaulted := by
    refine (List.perm_ext_iff_of_nodup hotherNodup hnodup).mpr fun name => ?_
    rw [hotherMem, hmem, hbase.mem_defaulted_iff]
  rw [← List.map_perm_map_iff fun _ _ => Option.some.inj, hotherRecords, hrecords,
    hbase.linkRecord?]
  exact hdefaulted.map _

end Assembles

/-! ## Building in another order -/

section Shuffled

variable {program shuffled : Program} (hperm : shuffled.classes.Perm program.classes)
  (huser : ∀ decl ∈ program.classes, decl.isBuiltin = false)
  (hnodup : (program.classes.map ClassDecl.name).Nodup)

include hperm huser hnodup

/-- The trees of two orders of the same declarations are the same but for the order of
the classes, and the same is reported. -/
theorem exists_builds_shuffled :
    ∃ base linked accepting linking otherBase otherLinked otherAccepting otherLinking,
      Builds program base linked accepting linking ∧
      Builds shuffled otherBase otherLinked otherAccepting otherLinking ∧
      Reordered linked otherLinked ∧
      (otherAccepting ++ otherLinking).Perm (accepting ++ linking) := by
  have hshuffled : ∀ decl ∈ shuffled.classes, decl.isBuiltin = false :=
    fun decl hdecl => huser decl (hperm.mem_iff.mp hdecl)
  obtain ⟨base, linked, accepting, linking, hbuilds⟩ := exists_builds huser
  obtain ⟨otherBase, otherLinked, otherAccepting, otherLinking, hother⟩ := exists_builds hshuffled
  have hbase : Reordered base otherBase := by
    apply reordered_of_distinct hbuilds.isBase.distinct hother.isBase.distinct
    funext name
    rw [hother.accepted.lookup, hbuilds.accepted.lookup, declarations_withBuiltins huser,
      declarations_withBuiltins hshuffled, declared?_append, declared?_append,
      declared?_perm hperm hnodup]
  have haccepting : otherAccepting.Perm accepting := by
    have haccepts := hbuilds.accepts
    have hotherAccepts := hother.accepts
    rw [declarations_withBuiltins huser, List.foldlM_append] at haccepts
    rw [declarations_withBuiltins hshuffled, List.foldlM_append] at hotherAccepts
    -- both start with the built-in classes
    obtain ⟨start, records, hstart, hbuiltins, _⟩ :=
      @exists_foldlM_accept {} List.nodup_nil Builtin.classes
    obtain ⟨after, hafter⟩ := exists_foldlM_accept_of_nodup hbuiltins.distinct hnodup
    obtain ⟨otherAfter, hotherAfter⟩ := exists_foldlM_accept_of_nodup hbuiltins.distinct
      ((hperm.map ClassDecl.name).nodup_iff.mpr hnodup)
    obtain ⟨_, rfl⟩ := haccepts.yields.unique (hstart.bind hafter).yields
    obtain ⟨_, rfl⟩ := hotherAccepts.yields.unique (hstart.bind hotherAfter).yields
    exact (hperm.filterMap _).append_left _
  exact ⟨base, linked, accepting, linking, otherBase, otherLinked, otherAccepting, otherLinking,
    hbuilds, hother, hbuilds.reordered hother.toAssembles hbase,
    haccepting.append (hbuilds.linking_perm hother.toAssembles hbase)⟩

end Shuffled

end ClassLang.Hierarchy
