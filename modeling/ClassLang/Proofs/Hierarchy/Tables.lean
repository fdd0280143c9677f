/-
# Tables that follow from those of the parent

The tables of a class are made from the tables of its parent and from its declaration,
and so are the records on its members. A list that has parents before children makes
each class from the tables that its parent keeps to the end; so the tables are settled
by the tree, and it does not matter which such list is taken.
-/

import ClassLang.Proofs.Hierarchy.Collecting
import ClassLang.Proofs.Hierarchy.Reordering

namespace ClassLang.Hierarchy

open Relation CheckM

variable {hierarchy other linked otherLinked : Hierarchy} {program shuffled : Program}

/-! ## The tables of one class -/

/-- With other tables the classes form the same tree. -/
theorem IsTree.withTables (htree : linked.IsTree) (hnames : hierarchy.names = linked.names)
    (hmade : ∀ name info, linked.get? name = some info →
      ∃ tables, hierarchy.get? name = some (withTables info tables)) : hierarchy.IsTree := by
  have hparent (name : String) : hierarchy.parent? name = linked.parent? name := by
    by_cases hname : name ∈ linked.names
    · obtain ⟨info, hget⟩ := exists_get?_of_mem_names hname
      obtain ⟨tables, hfinal⟩ := hmade name info hget
      rw [parent?, parent?, hfinal, hget]
      rfl
    · rw [parent?, parent?, get?_eq_none hname, get?_eq_none (hnames ▸ hname)]
  apply htree.congr _ (funext hparent)
  rw [hnames]

theorem agree_declareField (decl : ClassDecl) (fields : Scopes Ty) (field : FieldDecl) :
    Agree (declareField hierarchy decl fields field) (declareField hierarchy decl fields field) :=
  .bind (.require _ _) fun _ => .ite (.bind (.report _) fun _ => .pure _) (.pure _)

theorem agree_checkOverride (decl : ClassDecl) (method : MethodDecl)
    (inherited : Option Signature) :
    Agree (checkOverride decl method inherited) (checkOverride decl method inherited) := by
  cases inherited with
  | none => exact .pure ()
  | some sig => exact .require _ _

theorem agree_declareMethod (decl : ClassDecl) (methods : Scopes Signature)
    (method : MethodDecl) :
    Agree (declareMethod hierarchy decl methods method)
      (declareMethod hierarchy decl methods method) := by
  have hhead : Agree (checkHead hierarchy decl method) (checkHead hierarchy decl method) :=
    .bind (.require _ _) fun _ => .forM (fun _ => .require _ _) _
  refine .bind hhead fun _ => .ite (.bind (.report _) fun _ => .pure _) ?_
  exact .bind (agree_checkOverride decl method _) fun _ => .pure _

theorem agree_makeTables (program : Program) (hierarchy : Hierarchy) (info : ClassInfo) :
    Agree (makeTables program hierarchy info) (makeTables program hierarchy info) := by
  unfold makeTables
  split
  next => exact .pure _
  next decl _ =>
    exact .bind (.foldlM (agree_declareField decl) _ _) fun _ =>
      .bind (.foldlM (agree_declareMethod decl) _ _) fun _ => .pure _

/-- The tables of a class depend on which classes there are and on the tables of its
parent. -/
theorem makeTables_congr {info : ClassInfo}
    (hdecl : declaration? shuffled info = declaration? program info)
    (hcontains : other.contains = hierarchy.contains)
    (hparent : ∀ parent, info.parent = some parent → other.get? parent = hierarchy.get? parent) :
    makeTables shuffled other info = makeTables program hierarchy info := by
  have hvalid := validType_congr hcontains
  have hfield : declareField other = declareField hierarchy := by
    funext decl fields field
    rw [declareField, hvalid, declareField]
  have hmethod : declareMethod other = declareMethod hierarchy := by
    funext decl methods method
    rw [declareMethod, checkHead, hvalid, declareMethod, checkHead]
  have hinherited {α : Type} (table : ClassInfo → Scopes α) :
      other.inherited info table = hierarchy.inherited info table := by
    unfold inherited
    cases hinfo : info.parent with
    | none => rfl
    | some parent => simp only [hparent parent hinfo]
  simp only [makeTables, declareMembers, hdecl, hfield, hmethod, hinherited]

/-- Collecting a class changes its tables, and nothing else. -/
theorem exists_collectClass {name : String} {info : ClassInfo}
    (hget : hierarchy.get? name = some info) :
    ∃ next tables records, Yields (collectClass program hierarchy name) next records ∧
      Yields (makeTables program hierarchy info) tables records ∧
      next.names = hierarchy.names ∧ ∀ other, next.get? other =
        if other = name then some (withTables info tables) else hierarchy.get? other := by
  obtain ⟨tables, records, hmakes, _⟩ := agree_makeTables program hierarchy info
  refine ⟨hierarchy.modify name fun info => withTables info tables, tables, records ++ [], ?_, ?_,
    names_modify fun _ => rfl, fun other => ?_⟩
  · simp only [collectClass, hget]
    exact hmakes.bind (.unlessStopped _ _) fun _ => .unlessStopped _ _
  · rwa [List.append_nil]
  · rw [get?_withTables]
    split
    next heq => rw [heq, hget]; rfl
    next => rw [Option.map_id']

/-! ## Settled tables -/

/-- The classes of `done` have the tables that follow from those of their parents, and
the others have not been touched. -/
structure Settled (program : Program) (linked hierarchy : Hierarchy)
    (records : String → List Diagnostic) (done : List String) : Prop where
  names : hierarchy.names = linked.names
  closed : ∀ name ∈ done, ∀ parent, linked.IsParent name parent → parent ∈ done
  rest : ∀ name, name ∉ done → hierarchy.get? name = linked.get? name
  made : ∀ name ∈ done, ∀ info, linked.get? name = some info →
    ∃ tables, hierarchy.get? name = some (withTables info tables) ∧
      Yields (makeTables program hierarchy info) tables (records name)

theorem isParent_of_get? {name parent : String} {info : ClassInfo}
    (hget : hierarchy.get? name = some info) (hparent : info.parent = some parent) :
    hierarchy.IsParent name parent :=
  isParent_iff.mpr ⟨info, hget, hparent⟩

/-- One more class whose parent is settled. -/
theorem Settled.step {records : String → List Diagnostic} {done : List String}
    (hsettled : Settled program linked hierarchy records done) {name : String}
    (hparents : ∀ parent, linked.IsParent name parent → parent ∈ done) (hfresh : name ∉ done)
    (hname : name ∈ linked.names) :
    ∃ next more, Yields (collectClass program hierarchy name) next more ∧
      Settled program linked next (Function.update records name more) (name :: done) := by
  obtain ⟨info, hinfo⟩ := exists_get?_of_mem_names hname
  have hget : hierarchy.get? name = some info := by rw [hsettled.rest name hfresh, hinfo]
  obtain ⟨next, tables, more, hcollect, hmake, hnames, hnext⟩ :=
    @exists_collectClass hierarchy program name info hget
  have hne {old : String} (hold : old ∈ done) : old ≠ name := fun heq => hfresh (heq ▸ hold)
  -- the new tables are seen by no class that is settled already
  have hsame {old : String} {oldInfo : ClassInfo} (hold : linked.get? old = some oldInfo)
      (habove : ∀ parent, linked.IsParent old parent → parent ∈ done) :
      makeTables program next oldInfo = makeTables program hierarchy oldInfo := by
    refine makeTables_congr rfl (contains_congr fun _ => by rw [hnames]) fun parent hparent => ?_
    rw [hnext, if_neg (hne (habove parent (isParent_of_get? hold hparent)))]
  refine ⟨next, more, hcollect, hnames.trans hsettled.names, ?_, ?_, ?_⟩
  · rw [List.forall_mem_cons]
    refine ⟨fun parent hparent => List.mem_cons_of_mem _ (hparents parent hparent), ?_⟩
    exact fun old hold parent hparent =>
      List.mem_cons_of_mem _ (hsettled.closed old hold parent hparent)
  · intro old hold
    rw [List.mem_cons, not_or] at hold
    rw [hnext, if_neg hold.1, hsettled.rest old hold.2]
  · rw [List.forall_mem_cons]
    refine ⟨fun found hfound => ?_, fun old hold found hfound => ?_⟩
    · obtain rfl := Option.some.inj (hinfo.symm.trans hfound)
      refine ⟨tables, by rw [hnext, if_pos rfl], ?_⟩
      rwa [Function.update_self, hsame hfound hparents]
    · obtain ⟨oldTables, holdGet, holdMake⟩ := hsettled.made old hold found hfound
      refine ⟨oldTables, by rw [hnext, if_neg (hne hold), holdGet], ?_⟩
      rwa [Function.update_of_ne (hne hold), hsame hfound (hsettled.closed old hold)]

/-- A list with parents before children settles all its classes. -/
theorem Settled.run {records : String → List Diagnostic} {names done : List String}
    (hsettled : Settled program linked hierarchy records done)
    (hfirst : linked.ParentsFirst done names) (hnodup : names.Nodup)
    (hfresh : ∀ name ∈ names, name ∉ done) (hknown : ∀ name ∈ names, name ∈ linked.names) :
    ∃ next all, Yields (names.foldlM (collectClass program) hierarchy) next (names.flatMap all) ∧
      Settled program linked next all (names.reverse ++ done) ∧
      ∀ name ∈ done, all name = records name := by
  induction names generalizing hierarchy records done with
  | nil => exact ⟨hierarchy, records, (Reports.pure _).yields, hsettled, fun _ _ => rfl⟩
  | cons name names ih =>
      rw [List.nodup_cons] at hnodup
      rw [List.forall_mem_cons] at hfresh hknown
      obtain ⟨middle, more, hstep, hmiddle⟩ := hsettled.step hfirst.1 hfresh.1 hknown.1
      have hlater : ∀ later ∈ names, later ∉ name :: done := by
        intro later hlater
        rw [List.mem_cons, not_or]
        exact ⟨fun heq => hnodup.1 (heq ▸ hlater), hfresh.2 later hlater⟩
      obtain ⟨next, all, hrest, hnext, hall⟩ := ih hmiddle hfirst.2 hnodup.2 hlater hknown.2
      rw [List.forall_mem_cons, Function.update_self] at hall
      refine ⟨next, all, ?_, ?_, fun old hold => ?_⟩
      · rw [List.foldlM_cons, List.flatMap_cons, hall.1]
        exact hstep.bind hrest fun _ => .foldlM (fun _ => reporting_collectClass program) _ _
      · rwa [List.reverse_cons, List.append_assoc, List.singleton_append]
      · rw [hall.2 old hold, Function.update_of_ne]
        exact fun heq => hfresh.1 (heq ▸ hold)

/-- Where all classes are settled, they form the same tree. -/
theorem Settled.isTree {records : String → List Diagnostic} {done : List String}
    (hsettled : Settled program linked hierarchy records done) (htree : linked.IsTree)
    (hdone : ∀ name ∈ linked.names, name ∈ done) : hierarchy.IsTree := by
  refine htree.withTables hsettled.names fun name info hget => ?_
  obtain ⟨tables, hfinal, _⟩ := hsettled.made name (hdone name (mem_names_of_get? hget)) info hget
  exact ⟨tables, hfinal⟩

theorem exists_collectMembers (htree : linked.IsTree) (program : Program) :
    ∃ collected records,
      Yields (collectMembers program linked) collected (linked.rootFirst.flatMap records) ∧
        Settled program linked collected records linked.rootFirst.reverse := by
  have hperm := htree.rootFirst_perm_names
  have hstart : Settled program linked linked (fun _ => []) [] :=
    ⟨rfl, nofun, fun _ _ => rfl, nofun⟩
  obtain ⟨collected, records, hyields, hsettled, _⟩ := hstart.run htree.parentsFirst_rootFirst
    (hperm.nodup_iff.mpr htree.distinct) (fun _ _ => List.not_mem_nil)
    fun name hname => hperm.mem_iff.mp hname
  rw [List.append_nil] at hsettled
  exact ⟨collected, records, hyields, hsettled⟩

/-! ## Collecting in another order -/

section Shuffled

variable {records otherRecords : String → List Diagnostic} {done otherDone : List String}
  (htree : linked.IsTree) (hlinked : Reordered linked otherLinked)
  (hdecls : declaration? shuffled = declaration? program)
  (hsettled : Settled program linked hierarchy records done)
  (hother : Settled shuffled otherLinked other otherRecords otherDone)
  (hdone : ∀ name ∈ linked.names, name ∈ done)
  (hotherDone : ∀ name ∈ linked.names, name ∈ otherDone)

include htree hlinked hdecls hsettled hother hdone hotherDone

/-- The tree settles the tables: from parents to children they cannot differ. -/
theorem Settled.unique {name : String} (hname : name ∈ linked.names) :
    other.get? name = hierarchy.get? name ∧ otherRecords name = records name := by
  have hcontains : other.contains = hierarchy.contains := by
    apply contains_congr
    intro name
    rw [hother.names, hsettled.names, hlinked.names_perm.mem_iff]
  refine htree.induction (fun name hname hparents => ?_) hname
  obtain ⟨info, hinfo⟩ := exists_get?_of_mem_names hname
  have hotherInfo : otherLinked.get? name = some info := by rw [hlinked.get?, hinfo]
  obtain ⟨tables, hget, hmake⟩ := hsettled.made name (hdone name hname) info hinfo
  obtain ⟨otherTables, hotherGet, hotherMake⟩ :=
    hother.made name (hotherDone name hname) info hotherInfo
  have hsame : makeTables shuffled other info = makeTables program hierarchy info := by
    refine makeTables_congr (congrFun hdecls info) hcontains fun parent hparent => ?_
    exact (hparents parent (isParent_of_get? hinfo hparent)).1
  rw [hsame] at hotherMake
  obtain ⟨rfl, hrecords⟩ := hotherMake.unique hmake
  exact ⟨hotherGet.trans hget.symm, hrecords⟩

theorem Settled.reordered : Reordered hierarchy other := by
  apply reordered_of_distinct
  · rw [Distinct, hsettled.names]
    exact htree.distinct
  · rw [Distinct, hother.names]
    exact hlinked.distinct htree.distinct
  · funext name
    by_cases hname : name ∈ linked.names
    · exact (unique htree hlinked hdecls hsettled hother hdone hotherDone hname).1
    · rw [get?_eq_none, get?_eq_none]
      · rwa [hsettled.names]
      · rwa [hother.names, hlinked.names_perm.mem_iff]

end Shuffled

theorem declaration?_perm (hperm : shuffled.classes.Perm program.classes)
    (hnodup : (program.classes.map ClassDecl.name).Nodup) :
    declaration? shuffled = declaration? program := by
  funext info
  apply find?_perm hperm hnodup
  intro decl hdescribes
  simp only [ClassInfo.describes, Bool.and_eq_true, beq_iff_eq] at hdescribes
  exact hdescribes.1.1

/-- Two orders of the same classes get the same tables, and the same is reported. -/
theorem exists_collectMembers_shuffled (htree : linked.IsTree)
    (hlinked : Reordered linked otherLinked)
    (hdecls : declaration? shuffled = declaration? program) :
    ∃ collected records otherCollected otherRecords,
      Yields (collectMembers program linked) collected records ∧
      Yields (collectMembers shuffled otherLinked) otherCollected otherRecords ∧
      collected.IsTree ∧ Reordered collected otherCollected ∧ otherRecords.Perm records := by
  have hotherTree := hlinked.isTree htree
  have hperm := htree.rootFirst_perm_names
  have hotherPerm := hotherTree.rootFirst_perm_names
  obtain ⟨collected, records, hyields, hsettled⟩ := exists_collectMembers htree program
  obtain ⟨otherCollected, otherRecords, hotherYields, hother⟩ :=
    exists_collectMembers hotherTree shuffled
  have hdone : ∀ name ∈ linked.names, name ∈ linked.rootFirst.reverse :=
    fun name hname => List.mem_reverse.mpr (hperm.mem_iff.mpr hname)
  have hotherDone : ∀ name ∈ linked.names, name ∈ otherLinked.rootFirst.reverse :=
    fun name hname => List.mem_reverse.mpr
      (hotherPerm.mem_iff.mpr (hlinked.names_perm.mem_iff.mpr hname))
  refine ⟨collected, _, otherCollected, _, hyields, hotherYields, hsettled.isTree htree hdone,
    hsettled.reordered htree hlinked hdecls hother hdone hotherDone, ?_⟩
  refine .flatMap ((hotherPerm.trans hlinked.names_perm).trans hperm.symm) fun name hname => ?_
  have hknown := hlinked.names_perm.mem_iff.mp (hotherPerm.mem_iff.mp hname)
  rw [(Settled.unique htree hlinked hdecls hsettled hother hdone hotherDone hknown).2]

end ClassLang.Hierarchy
