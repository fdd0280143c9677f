/-
# The tree that is built

Building a class tree accepts declarations and then links them. Which parent a
class has in the end depends on the declarations alone and not on their order: it
is the declared one, unless there is no such class, it is closed, or the class lies
on a cycle of declared parents. Each of these cases is reported once.
-/

import ClassLang.Proofs.Hierarchy.Links
import ClassLang.Proofs.Hierarchy.Walk

namespace ClassLang.Hierarchy

open Relation CheckM

variable {hierarchy : Hierarchy}

/-! ## Accepting declarations -/

/-- The declaration that a class of this name is made from: the first one, unless the
name is reserved. -/
def declared? (decls : List ClassDecl) (name : String) : Option ClassDecl :=
  if isReserved name then none else decls.find? fun decl => decl.name == name

theorem declared?_append (decls more : List ClassDecl) (name : String) :
    declared? (decls ++ more) name = (declared? decls name).or (declared? more name) := by
  unfold declared?
  split
  · rfl
  · exact List.find?_append

theorem mem_of_declared? {decls : List ClassDecl} {name : String} {decl : ClassDecl}
    (hdecl : declared? decls name = some decl) : decl ∈ decls := by
  unfold declared? at hdecl
  split at hdecl
  · cases hdecl
  · exact List.mem_of_find?_eq_some hdecl

/-- The classes after declarations were accepted or rejected: those from before, and
for each other name the one that is declared. -/
structure Accepts (before : Hierarchy) (decls : List ClassDecl) (after : Hierarchy) : Prop where
  distinct : after.Distinct
  lookup : ∀ name, after.get? name = (before.get? name).or ((declared? decls name).map .ofDecl)

namespace Accepts

theorem nil (hdistinct : hierarchy.Distinct) : Accepts hierarchy [] hierarchy where
  distinct := hdistinct
  lookup := by
    intro name
    simp [declared?]

theorem append {middle after : Hierarchy} {decls more : List ClassDecl}
    (hdecls : Accepts hierarchy decls middle) (hmore : Accepts middle more after) :
    Accepts hierarchy (decls ++ more) after where
  distinct := hmore.distinct
  lookup := by
    intro name
    rw [hmore.lookup, hdecls.lookup, Option.or_assoc, ← Option.map_or, ← declared?_append]

theorem rejected {decl : ClassDecl} (hdistinct : hierarchy.Distinct)
    (hrejected : isReserved decl.name = true ∨ decl.name ∈ hierarchy.names) :
    Accepts hierarchy [decl] hierarchy where
  distinct := hdistinct
  lookup := by
    intro name
    by_cases hname : decl.name = name
    · subst hname
      rcases hrejected with hreserved | hmem
      · simp [declared?, hreserved]
      · obtain ⟨info, hget⟩ := exists_get?_of_mem_names hmem
        rw [hget, Option.some_or]
    · simp [declared?, hname]

theorem accepted {decl : ClassDecl} (hdistinct : hierarchy.Distinct)
    (hreserved : isReserved decl.name = false) (hnew : decl.name ∉ hierarchy.names) :
    Accepts hierarchy [decl] (hierarchy.insert (.ofDecl decl)) where
  distinct := by
    show (List.map ClassInfo.name (hierarchy.classes ++ [.ofDecl decl])).Nodup
    rw [List.map_append, List.nodup_append']
    exact ⟨hdistinct, List.nodup_singleton _, List.disjoint_singleton.mpr hnew⟩
  lookup := by
    intro name
    rw [insert, get?, List.find?_append, ← get?]
    congr 1
    by_cases hname : decl.name = name
    · subst hname
      simp [declared?, hreserved, ClassInfo.ofDecl]
    · simp [declared?, hname, ClassInfo.ofDecl]

/-- Where there were no classes before, every class is a declared one. -/
theorem exists_decl {decls : List ClassDecl} (haccepts : Accepts {} decls hierarchy)
    {info : ClassInfo} (hinfo : info ∈ hierarchy.classes) :
    ∃ decl ∈ decls, ClassInfo.ofDecl decl = info := by
  have hget := get?_name haccepts.distinct hinfo
  rw [haccepts.lookup, show get? {} info.name = none from rfl, Option.none_or,
    Option.map_eq_some_iff] at hget
  obtain ⟨decl, hdecl, heq⟩ := hget
  exact ⟨decl, mem_of_declared? hdecl, heq⟩

/-- Nothing is linked yet. -/
theorem progress {decls : List ClassDecl} (haccepts : Accepts {} decls hierarchy) :
    Progress hierarchy [] where
  subset := List.nil_subset _
  root := List.not_mem_nil
  untouched := by
    intro name _
    rw [parent?, Option.bind_eq_none_iff]
    intro info hget
    obtain ⟨decl, _, rfl⟩ := haccepts.exists_decl (mem_of_get? hget)
    rfl
  defaulted := by simp
  kept := by simp

end Accepts

theorem rejection?_eq_none_iff {decl : ClassDecl} :
    hierarchy.rejection? decl = none ↔
      isReserved decl.name = false ∧ decl.name ∉ hierarchy.names := by
  rw [rejection?, ← contains_iff_mem_names, Bool.not_eq_true]
  cases isReserved decl.name <;> cases hierarchy.contains decl.name <;> simp

/-- What is reported instead is about the name, where it is declared. -/
theorem fault_of_rejection? {decl : ClassDecl} {record : Diagnostic}
    (hrecord : hierarchy.rejection? decl = some record) :
    ∃ fault : Fault, fault ≠ .loop ∧ record = fault.at decl.file decl.line := by
  unfold rejection? at hrecord
  split at hrecord
  · exact ⟨.reservedName decl.name, nofun, (Option.some.inj hrecord).symm⟩
  · split at hrecord
    · exact ⟨.duplicate decl.name, nofun, (Option.some.inj hrecord).symm⟩
    · cases hrecord

/-- If nothing is reported, the declaration has become a class. -/
theorem exists_accept (hdistinct : hierarchy.Distinct) (decl : ClassDecl) :
    ∃ after, Reports (accept hierarchy decl) after (hierarchy.rejection? decl).toList ∧
      Accepts hierarchy [decl] after ∧
      (hierarchy.rejection? decl = none →
        after.classes = hierarchy.classes ++ [.ofDecl decl]) := by
  unfold accept
  cases hrejection : hierarchy.rejection? decl with
  | some record =>
      have htaken := rejection?_eq_none_iff.not.mp (Option.ne_none_iff_exists'.mpr ⟨_, hrejection⟩)
      rw [not_and_or, Bool.not_eq_false, not_not] at htaken
      exact ⟨_, .bind (.report record) (.pure _), .rejected hdistinct htaken, nofun⟩
  | none =>
      obtain ⟨hfree, hnew⟩ := rejection?_eq_none_iff.mp hrejection
      exact ⟨_, .pure _, .accepted hdistinct hfree hnew, fun _ => rfl⟩

/-- If nothing is reported, every declaration has become a class. -/
theorem exists_foldlM_accept (hdistinct : hierarchy.Distinct) (decls : List ClassDecl) :
    ∃ after records, Reports (decls.foldlM accept hierarchy) after records ∧
      Accepts hierarchy decls after ∧
      (records = [] → after.classes = hierarchy.classes ++ decls.map .ofDecl) ∧
      ∀ record ∈ records, ∃ other decl, rejection? other decl = some record := by
  induction decls generalizing hierarchy with
  | nil => exact ⟨hierarchy, [], .pure _, .nil hdistinct, by simp, nofun⟩
  | cons decl decls ih =>
      obtain ⟨middle, hfirst, hdecl, hclass⟩ := exists_accept hdistinct decl
      obtain ⟨after, more, hrest, hdecls, hclasses, hmore⟩ := ih hdecl.distinct
      refine ⟨after, (hierarchy.rejection? decl).toList ++ more, ?_, hdecl.append hdecls,
        fun hquiet => ?_, fun record hrecord => ?_⟩
      · rw [List.foldlM_cons]
        exact .bind hfirst hrest
      · obtain ⟨hnone, hnil⟩ := List.append_eq_nil_iff.mp hquiet
        rw [hclasses hnil, hclass (Option.toList_eq_nil_iff.mp hnone), List.append_assoc,
          List.map_cons, List.singleton_append]
      · rcases List.mem_append.mp hrecord with hhere | hlater
        · exact ⟨hierarchy, decl, Option.mem_toList.mp hhere⟩
        · exact hmore record hlater

/-! ## Programs without classes from the built-in file -/

theorem classes_withBuiltins {program : Program}
    (huser : ∀ decl ∈ program.classes, decl.isBuiltin = false) :
    program.withBuiltins.classes = program.classes ++ Builtin.classes := by
  have hany : ¬ program.classes.any ClassDecl.isBuiltin = true := by
    rw [List.any_eq_true]
    rintro ⟨decl, hdecl, hbuiltin⟩
    rw [huser decl hdecl] at hbuiltin
    cases hbuiltin
  rw [Program.withBuiltins, if_neg hany]

/-- The declarations of a program of its own are the built-in ones, then its own. -/
theorem declarations_withBuiltins {program : Program}
    (huser : ∀ decl ∈ program.classes, decl.isBuiltin = false) :
    declarations program.withBuiltins = Builtin.classes ++ program.classes := by
  have hnone : program.classes.filter ClassDecl.isBuiltin = [] := by
    rw [List.filter_eq_nil_iff]
    intro decl hdecl
    rw [huser decl hdecl]
    exact Bool.false_ne_true
  have hall : (program.classes.filter fun decl => !decl.isBuiltin) = program.classes := by
    rw [List.filter_eq_self]
    intro decl hdecl
    rw [huser decl hdecl]
    rfl
  have hbuiltin : Builtin.classes.filter ClassDecl.isBuiltin = Builtin.classes := rfl
  have hother : (Builtin.classes.filter fun decl => !decl.isBuiltin) = [] := rfl
  rw [declarations, classes_withBuiltins huser, List.filter_append, List.filter_append, hnone, hall,
    hbuiltin, hother, List.nil_append, List.append_nil]

/-- What the classes of such a program are like before they are linked. -/
structure IsBase (hierarchy : Hierarchy) : Prop where
  distinct : hierarchy.Distinct
  root : hierarchy.get? Ty.objectName = some (.ofDecl Builtin.objectClass)
  closed : ∀ info ∈ hierarchy.classes, info.extendable = false →
    info.declaredParent = some Ty.objectName

theorem isBase_of_accepts {decls : List ClassDecl}
    (huser : ∀ decl ∈ decls, decl.isBuiltin = false)
    (haccepts : Accepts {} (Builtin.classes ++ decls) hierarchy) : IsBase hierarchy where
  distinct := haccepts.distinct
  root := by
    rw [haccepts.lookup, declared?_append]
    rfl
  closed := by
    intro info hinfo hclosed
    obtain ⟨decl, hdecl, rfl⟩ := haccepts.exists_decl hinfo
    rcases List.mem_append.mp hdecl with hbuiltin | hdecl
    · simp only [Builtin.classes, List.mem_cons, List.not_mem_nil, or_false] at hbuiltin
      rcases hbuiltin with rfl | rfl | rfl | rfl
      · cases hclosed
      · rfl
      · rfl
      · rfl
    · simp [ClassInfo.ofDecl, huser decl hdecl] at hclosed

/-! ## Cycles of declared parents -/

/-- A class declares a parent. -/
def Declares (hierarchy : Hierarchy) (child parent : String) : Prop :=
  ∃ info, hierarchy.get? child = some info ∧ info.declaredParent = some parent

/-- The declared parents of a class lead back to it. -/
def OnCycle (hierarchy : Hierarchy) (name : String) : Prop :=
  TransGen hierarchy.Declares name name

theorem declares_rightUnique : Relator.RightUnique hierarchy.Declares := by
  rintro child parent other ⟨info, hget, hparent⟩ ⟨info', hget', hother⟩
  obtain rfl := Option.some.inj (hget.symm.trans hget')
  exact Option.some.inj (hparent.symm.trans hother)

theorem onCycle_of_declares {child parent : String} (hcycle : hierarchy.OnCycle child)
    (hdeclares : hierarchy.Declares child parent) : hierarchy.OnCycle parent := by
  obtain ⟨next, hnext, hrest⟩ := TransGen.head'_iff.mp hcycle
  obtain rfl := declares_rightUnique hdeclares hnext
  exact .tail' hrest hdeclares

theorem SameClasses.declares {other : Hierarchy} (hsame : SameClasses hierarchy other) :
    other.Declares = hierarchy.Declares := by
  funext child parent
  have hmap := hsame.map_get? child ClassInfo.declaredParent fun _ => rfl
  simp only [Declares, ← Option.map_eq_some_iff, hmap]

namespace IsBase

variable (hbase : IsBase hierarchy)

include hbase

theorem not_declares_root (parent : String) : ¬ hierarchy.Declares Ty.objectName parent := by
  rintro ⟨info, hget, hparent⟩
  obtain rfl := Option.some.inj (hbase.root.symm.trans hget)
  cases hparent

theorem not_onCycle_root : ¬ hierarchy.OnCycle Ty.objectName := by
  intro hcycle
  obtain ⟨parent, hdeclares, _⟩ := TransGen.head'_iff.mp hcycle
  exact hbase.not_declares_root parent hdeclares

/-- A class on a cycle is linked to the next one: only the root is declared as the
parent of closed classes, and it is on no cycle. -/
theorem links_of_declares {child parent : String} (hdeclares : hierarchy.Declares child parent)
    (hcycle : hierarchy.OnCycle parent) :
    hierarchy.Wants child parent ∧ hierarchy.Extendable parent := by
  have hroot : child ≠ Ty.objectName := by
    rintro rfl
    exact hbase.not_declares_root parent hdeclares
  obtain ⟨info, hget, hparent⟩ := hdeclares
  refine ⟨⟨hroot, info, hget, by rw [ClassInfo.wantedParent, hparent, Option.getD_some]⟩, ?_⟩
  obtain ⟨next, hnext, _⟩ := TransGen.head'_iff.mp hcycle
  obtain ⟨parentInfo, hparentGet, _⟩ := id hnext
  refine ⟨parentInfo, hparentGet, ?_⟩
  by_contra hclosed
  rw [Bool.not_eq_true] at hclosed
  have habove : hierarchy.Declares parent Ty.objectName :=
    ⟨parentInfo, hparentGet, hbase.closed parentInfo (mem_of_get? hparentGet) hclosed⟩
  exact hbase.not_onCycle_root (onCycle_of_declares hcycle habove)

/-- The cycles of declared parents are the cycles of links. -/
theorem transGen_links_iff {linked : List String}
    (hlinked : ∀ name ∈ hierarchy.names, name ≠ Ty.objectName → name ∈ linked)
    {name : String} :
    TransGen (hierarchy.Links linked) name name ↔ hierarchy.OnCycle name := by
  constructor
  · intro hcycle
    -- a class that is linked is not the root, so its link was declared
    have hpath : ∀ {upper : String}, TransGen (hierarchy.Links linked) name upper →
        upper ≠ Ty.objectName → TransGen hierarchy.Declares name upper := by
      have hone : ∀ {child parent : String}, hierarchy.Links linked child parent →
          parent ≠ Ty.objectName → hierarchy.Declares child parent := by
        rintro child parent ⟨_, ⟨_, info, hget, rfl⟩, _⟩ hparent
        refine ⟨info, hget, ?_⟩
        cases hdeclared : info.declaredParent with
        | none => simp [ClassInfo.wantedParent, hdeclared] at hparent
        | some parent => simp [ClassInfo.wantedParent, hdeclared]
      intro upper hpath
      induction hpath with
      | single hlink => exact fun hupper => .single (hone hlink hupper)
      | tail _ hlink ih => exact fun hupper => .tail (ih hlink.2.1.1) (hone hlink hupper)
    obtain ⟨next, hlink, _⟩ := TransGen.head'_iff.mp hcycle
    exact hpath hcycle hlink.2.1.1
  · intro hcycle
    have hone : ∀ {child parent : String}, hierarchy.OnCycle child →
        hierarchy.Declares child parent → hierarchy.Links linked child parent := by
      intro child parent hchild hdeclares
      obtain ⟨hwants, hopen⟩ :=
        hbase.links_of_declares hdeclares (onCycle_of_declares hchild hdeclares)
      obtain ⟨hroot, info, hget, _⟩ := id hwants
      exact ⟨hlinked child (mem_names_of_get? hget) hroot, hwants, hopen⟩
    have hpath : ∀ {upper : String}, TransGen hierarchy.Declares name upper →
        TransGen (hierarchy.Links linked) name upper ∧ hierarchy.OnCycle upper := by
      intro upper hpath
      induction hpath with
      | single hdeclares =>
          exact ⟨.single (hone hcycle hdeclares), onCycle_of_declares hcycle hdeclares⟩
      | tail _ hdeclares ih =>
          exact ⟨.tail ih.1 (hone ih.2 hdeclares), onCycle_of_declares ih.2 hdeclares⟩
    exact (hpath hcycle).1

end IsBase

/-! ## Building -/

/-- Once all classes are linked they form a tree, if the root is one of them. -/
theorem Progress.isTree {linked : List String} (hprogress : Progress hierarchy linked)
    (hdistinct : hierarchy.Distinct) (hroot : Ty.objectName ∈ hierarchy.names)
    (hlinked : ∀ name ∈ hierarchy.names, name ≠ Ty.objectName → name ∈ linked) :
    hierarchy.IsTree where
  distinct := hdistinct
  acyclic := hprogress.acyclic
  root_mem := hroot
  parent_mem := by
    intro child parent hparent
    by_cases hobject : parent = Ty.objectName
    · rwa [hobject]
    · obtain ⟨⟨_, _, info, hget, _⟩, _⟩ := hprogress.links_of_isParent hparent hobject
      exact mem_names_of_get? hget
  eq_root := by
    intro name hname hnone
    by_contra hobject
    have hmem := hlinked name hname hobject
    by_cases hdefaulted : hierarchy.Defaulted linked name
    · have hparent := hprogress.defaulted name hmem hdefaulted
      rw [IsParent, hnone] at hparent
      cases hparent
    · obtain ⟨parent, hwants⟩ := hprogress.exists_wants hmem
      have hparent := hprogress.kept name hmem hdefaulted parent hwants
      rw [IsParent, hnone] at hparent
      cases hparent

theorem IsTree.isRooted (htree : hierarchy.IsTree) : hierarchy.isRooted = true := by
  rw [Hierarchy.isRooted, htree.descendantCount_root, beq_self_eq_true, Bool.or_true]

/-- The classes that are linked, all but the root. -/
def linkedNames (hierarchy : Hierarchy) : List String :=
  (hierarchy.names.filter (· != Ty.objectName)).reverse

theorem mem_linkedNames {name : String} :
    name ∈ hierarchy.linkedNames ↔ name ∈ hierarchy.names ∧ name ≠ Ty.objectName := by
  simp [linkedNames]

/-- What building does for a program, and what it reports on the way. -/
structure Assembles (program : Program) (base linked : Hierarchy)
    (accepting linking : List Diagnostic) : Prop where
  accepts : Reports ((declarations program).foldlM accept {}) base accepting
  accepted : Accepts {} (declarations program) base
  complete : accepting = [] → base.classes = (declarations program).map .ofDecl
  rejected : ∀ record ∈ accepting, ∃ other decl, rejection? other decl = some record
  same : SameClasses base linked
  progress : Progress linked base.linkedNames
  builds : Reports (build program) linked (accepting ++ linking)
  records : ∃ defaulted : List String, defaulted.Nodup ∧
    (∀ name, name ∈ defaulted ↔
      name ∈ base.linkedNames ∧ base.Defaulted base.linkedNames name) ∧
    linking.map some = defaulted.map base.linkRecord?

/-- All classes are linked, so they form a tree if the root is one of them. -/
theorem isTree_of_sameClasses {base linked : Hierarchy} (hdistinct : base.Distinct)
    (hsame : SameClasses base linked) (hprogress : Progress linked base.linkedNames)
    (hroot : Ty.objectName ∈ linked.names) : linked.IsTree := by
  refine hprogress.isTree ?_ hroot fun name hname hobject => ?_
  · rw [Distinct, hsame.1]
    exact hdistinct
  · rw [hsame.1] at hname
    exact mem_linkedNames.mpr ⟨hname, hobject⟩

theorem exists_assembles (program : Program) :
    ∃ base linked accepting linking, Assembles program base linked accepting linking := by
  obtain ⟨base, accepting, haccept, haccepts, hcomplete, hrejected⟩ :=
    @exists_foldlM_accept {} List.nodup_nil (declarations program)
  have hnodup : (base.names.filter (· != Ty.objectName)).Nodup := haccepts.distinct.filter _
  obtain ⟨linked, linking, defaulted, hlink, hsame, hprogress, hdefaulted, hmem, hrecords⟩ :=
    exists_foldlM_link haccepts.progress hnodup (fun _ _ => List.not_mem_nil)
      (fun name hname => by simpa using hname)
  rw [List.append_nil] at hprogress hmem
  -- without the root nothing is asked of the tree, and with it there is one
  have hrooted : linked.isRooted = true := by
    by_cases hroot : Ty.objectName ∈ linked.names
    · exact (isTree_of_sameClasses haccepts.distinct hsame hprogress hroot).isRooted
    · rw [← contains_iff_mem_names, Bool.not_eq_true] at hroot
      rw [isRooted, hroot, Bool.not_false, Bool.true_or]
  refine ⟨base, linked, accepting, linking, haccept, haccepts, hcomplete, hrejected, hsame,
    hprogress, ?_, defaulted, hdefaulted, ?_, hrecords⟩
  · have hrequire : Reports (CheckM.require linked.isRooted
        (.general .semantic Fault.loop.message)) () [] := by
      rw [hrooted]
      exact .pure ()
    refine Reports.bind haccept ?_
    rw [← List.append_nil linking]
    refine Reports.bind hlink ?_
    exact Reports.bind hrequire (.pure linked)
  · intro name
    rw [hmem, and_iff_left fun h => List.not_mem_nil h.1, linkedNames]

/-- A class is what the first declaration of its name says. -/
theorem Assembles.map_get? {program : Program} {base linked : Hierarchy}
    {accepting linking : List Diagnostic}
    (hall : Assembles program base linked accepting linking) (name : String) :
    (linked.get? name).map (fun info => { info with parent := none }) =
      (declared? (declarations program) name).map .ofDecl := by
  rw [hall.same.2, hall.accepted.lookup, show get? {} name = none from rfl, Option.none_or,
    Option.map_map]
  rfl

/-- What building does for a program of its own. -/
structure Builds (program : Program) (base linked : Hierarchy)
    (accepting linking : List Diagnostic) : Prop
    extends Assembles program.withBuiltins base linked accepting linking where
  isBase : IsBase base
  classes : accepting = [] → base.classes = (Builtin.classes ++ program.classes).map .ofDecl
  tree : linked.IsTree

theorem exists_builds {program : Program}
    (huser : ∀ decl ∈ program.classes, decl.isBuiltin = false) :
    ∃ base linked accepting linking, Builds program base linked accepting linking := by
  obtain ⟨base, linked, accepting, linking, hall⟩ := exists_assembles program.withBuiltins
  have hdeclarations := declarations_withBuiltins huser
  have hbase : IsBase base := isBase_of_accepts huser (hdeclarations ▸ hall.accepted)
  have hroot : Ty.objectName ∈ linked.names := hall.same.1 ▸ mem_names_of_get? hbase.root
  exact ⟨base, linked, accepting, linking, hall, hbase, hdeclarations ▸ hall.complete,
    isTree_of_sameClasses hbase.distinct hall.same hall.progress hroot⟩

/-- A class whose declared parent is not used: there is no such class, it is closed,
or the class lies on a cycle of declared parents. -/
def MustDefault (hierarchy : Hierarchy) (name : String) : Prop :=
  name ≠ Ty.objectName ∧ ∃ info, hierarchy.get? name = some info ∧
    ¬ (hierarchy.Extendable info.wantedParent ∧ ¬ hierarchy.OnCycle name)

namespace Builds

variable {program : Program} {base linked : Hierarchy} {accepting linking : List Diagnostic}
  (hbuilds : Builds program base linked accepting linking)

include hbuilds

theorem onCycle_iff {name : String} :
    TransGen (base.Links base.linkedNames) name name ↔ linked.OnCycle name := by
  rw [OnCycle, hbuilds.same.declares]
  exact hbuilds.isBase.transGen_links_iff fun name hname hroot =>
    mem_linkedNames.mpr ⟨hname, hroot⟩

/-- The classes that linking finds to default are those that must. -/
theorem mustDefault_iff {name : String} :
    linked.MustDefault name ↔
      name ∈ base.linkedNames ∧ base.Defaulted base.linkedNames name := by
  rw [mem_linkedNames, Defaulted, hbuilds.onCycle_iff, ← hbuilds.same.wants,
    ← hbuilds.same.extendable, ← hbuilds.same.1]
  constructor
  · rintro ⟨hroot, info, hget, hnot⟩
    refine ⟨⟨mem_names_of_get? hget, hroot⟩, ?_⟩
    by_cases hopen : linked.Extendable info.wantedParent
    · exact .inr (not_not.mp fun hcycle => hnot ⟨hopen, hcycle⟩)
    · exact .inl ⟨info.wantedParent, ⟨hroot, info, hget, rfl⟩, hopen⟩
  · rintro ⟨⟨hname, hroot⟩, ⟨parent, ⟨_, info, hget, rfl⟩, hclosed⟩ | hcycle⟩
    · exact ⟨hroot, info, hget, fun h => hclosed h.1⟩
    · obtain ⟨info, hget⟩ := exists_get?_of_mem_names hname
      exact ⟨hroot, info, hget, fun h => h.2 hcycle⟩

theorem parent_of_mustDefault {name : String} (hdefault : linked.MustDefault name) :
    linked.IsParent name Ty.objectName := by
  obtain ⟨hmem, hdefaulted⟩ := hbuilds.mustDefault_iff.mp hdefault
  exact hbuilds.progress.defaulted name hmem (hbuilds.same.defaulted ▸ hdefaulted)

theorem parent_of_not_mustDefault {name parent : String} (hwants : linked.Wants name parent)
    (hkept : ¬ linked.MustDefault name) : linked.IsParent name parent := by
  have hmem : name ∈ base.linkedNames := by
    obtain ⟨hroot, info, hget, _⟩ := id hwants
    rw [mem_linkedNames, ← hbuilds.same.1]
    exact ⟨mem_names_of_get? hget, hroot⟩
  refine hbuilds.progress.kept name hmem (fun hdefaulted => hkept ?_) parent hwants
  exact hbuilds.mustDefault_iff.mpr ⟨hmem, hbuilds.same.defaulted ▸ hdefaulted⟩

theorem parent?_root : linked.parent? Ty.objectName = none :=
  hbuilds.progress.untouched _ fun hmem => (mem_linkedNames.mp hmem).2 rfl

end Builds

/-- The tree of a program is as its declarations say, and so are the records. -/
structure LinkedAsDeclared (program : Program) (log : Log) (linked : Hierarchy)
    (pass : Pass) : Prop where
  /-- A class is what the first declaration of its name says, the built-in ones before
  all others, and a name that is declared and not reserved has a class. -/
  classes : ∀ name, (linked.get? name).map (fun info => { info with parent := none }) =
    (declared? (declarations program.withBuiltins) name).map .ofDecl
  /-- A class has its declared parent if that is an extendable class and the class lies
  on no cycle of declared parents. -/
  keeps : ∀ name info, linked.get? name = some info → name ≠ Ty.objectName →
    linked.Extendable info.wantedParent → ¬ linked.OnCycle name →
      info.parent = some info.wantedParent
  /-- Any other class is below the root. -/
  defaults : ∀ name info, linked.get? name = some info → name ≠ Ty.objectName →
    ¬ (linked.Extendable info.wantedParent ∧ ¬ linked.OnCycle name) →
      info.parent = some Ty.objectName
  root : ∃ info, linked.get? Ty.objectName = some info ∧ info.parent = none
  /-- After the records on names there is one for each class of the second kind, and no
  other. -/
  records : ∃ (records : List Diagnostic) (defaulted : List String),
    pass.log.records =
      (((declarations program.withBuiltins).foldlM accept {}).runOn log).2.log.records ++
        records ∧
    defaulted.Nodup ∧ (∀ name, name ∈ defaulted ↔ linked.MustDefault name) ∧
    records.map some = defaulted.map linked.linkRecord?

/-- Whatever the order of the declarations, the tree that is built has the declared
parents except where they cannot be used. -/
theorem build_linkedAsDeclared {program : Program}
    (huser : ∀ decl ∈ program.classes, decl.isBuiltin = false) {log : Log} {linked : Hierarchy}
    {pass : Pass} (hbuild : (build program.withBuiltins).runOn log = (linked, pass))
    (hpass : pass.stopped = false) : LinkedAsDeclared program log linked pass := by
  obtain ⟨base, found, accepting, linking, hbuilds⟩ := exists_builds huser
  obtain ⟨rfl, hrecords⟩ := hbuilds.builds.records_runOn hbuild hpass
  obtain ⟨defaulted, hnodup, hmem, hlinking⟩ := hbuilds.records
  have hparent {name : String} {info : ClassInfo} (hget : linked.get? name = some info) :
      linked.parent? name = info.parent := by
    rw [parent?, hget, Option.bind_some]
  constructor
  · exact hbuilds.map_get?
  · intro name info hget hroot hopen hcycle
    rw [← hparent hget]
    refine hbuilds.parent_of_not_mustDefault ⟨hroot, info, hget, rfl⟩ ?_
    rintro ⟨_, other, hother, hnot⟩
    obtain rfl := Option.some.inj (hget.symm.trans hother)
    exact hnot ⟨hopen, hcycle⟩
  · intro name info hget hroot hnot
    rw [← hparent hget]
    exact hbuilds.parent_of_mustDefault ⟨hroot, info, hget, hnot⟩
  · obtain ⟨info, hget⟩ := exists_get?_of_mem_names hbuilds.tree.root_mem
    exact ⟨info, hget, by rw [← hparent hget, hbuilds.parent?_root]⟩
  · refine ⟨linking, defaulted, ?_, hnodup, fun name => ?_, ?_⟩
    · have hrun : (build program.withBuiltins).runOn log =
          (linked, (Pass.reportAll { log := log } accepting).reportAll linking) := by
        rw [runOn, hbuilds.builds, Pass.reportAll_append]
      rw [hbuild, Prod.mk.injEq] at hrun
      rw [hrun.2] at hpass
      have haccept := Pass.records_reportAll (Pass.running_of_reportAll hpass)
      rw [hrecords, runOn, hbuilds.accepts, haccept, List.append_assoc]
    · rw [hmem, hbuilds.mustDefault_iff]
    · rw [hlinking, hbuilds.same.linkRecord?]

/-- Two classes that extend each other, one below them, one that extends itself, one
below a closed class and one below none. -/
def tangledProgram : Program where
  classes :=
    [{ name := "Tail", parent := some "Left", file := "a", line := 1 },
      { name := "Left", parent := some "Right", file := "a", line := 2 },
      { name := "Self", parent := some "Self", file := "a", line := 3 },
      { name := "Right", parent := some "Left", file := "b", line := 1 },
      { name := "Closed", parent := some "String", file := "b", line := 2 },
      { name := "Lost", parent := some "Nowhere", file := "b", line := 3 }]

theorem tangledProgram_linkedAsDeclared :
    ∃ linked pass, (build tangledProgram.withBuiltins).runOn { limit := 9 } = (linked, pass) ∧
      pass.log.count = 5 ∧ LinkedAsDeclared tangledProgram { limit := 9 } linked pass := by
  refine ⟨_, _, rfl, ?_, build_linkedAsDeclared ?_ rfl ?_⟩
  · decide
  · decide
  · decide

end ClassLang.Hierarchy
