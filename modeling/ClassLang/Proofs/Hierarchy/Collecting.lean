/-
# Programs whose members are collected

If the class tree of a program is built and its members are collected without a
record, every class of the program is in the tree as it is declared, the types in the
heads of its members exist, and no table holds the error type.
-/

import ClassLang.Hierarchy.Members
import ClassLang.Proofs.Hierarchy.Building
import ClassLang.Proofs.Typing.Rules

namespace ClassLang.Hierarchy

open CheckM

variable {hierarchy linked : Hierarchy} {pass : Pass} {given : Prop}

/-! ## Collecting members -/

/-- The types in the heads of the members of a class exist. -/
structure HeadsValid (hierarchy : Hierarchy) (decl : ClassDecl) : Prop where
  fields : ∀ field ∈ decl.fields, hierarchy.validType false field.type = true
  returns : ∀ method ∈ decl.methods, hierarchy.validType true method.returnType = true
  params : ∀ method ∈ decl.methods, ∀ param ∈ method.params,
    hierarchy.validType false param.type = true

theorem decides_declareField (decl : ClassDecl) (fields : Scopes Ty) (field : FieldDecl) :
    Decides given id (declareField hierarchy decl fields field) fun after =>
      hierarchy.validType false field.type = true ∧ fields.peek field.name = none ∧
        fields.add field.name field.type = after := by
  refine (Decides.require _ _).bind_unit fun _ => ?_
  refine Decides.report_of_isSome ?_
  exact .pure (fields.add field.name field.type)

theorem reporting_declareField (decl : ClassDecl) (fields : Scopes Ty) (field : FieldDecl) :
    Reporting (declareField hierarchy decl fields field) :=
  (@decides_declareField hierarchy True decl fields field).reporting

theorem decides_checkHead (decl : ClassDecl) (method : MethodDecl) :
    Decides given (fun _ => ()) (checkHead hierarchy decl method) fun _ =>
      hierarchy.validType true method.returnType = true ∧
        ∀ param ∈ method.params, hierarchy.validType false param.type = true :=
  (Decides.require _ _).bind_unit fun _ => .forM fun _ _ => .require _ _

theorem decides_checkOverride (decl : ClassDecl) (method : MethodDecl)
    (inherited : Option Signature) :
    Decides given (fun _ => ()) (checkOverride decl method inherited) fun _ =>
      ∀ sig ∈ inherited, sig.agrees (method.signature decl.name) = true := by
  cases inherited with
  | none => exact (Decides.pure ()).congr fun _ _ => by simp
  | some sig => exact (Decides.require _ _).congr fun _ _ => by simp

theorem decides_declareMethod (decl : ClassDecl) (methods : Scopes Signature)
    (method : MethodDecl) :
    Decides given id (declareMethod hierarchy decl methods method) fun after =>
      (hierarchy.validType true method.returnType = true ∧
        ∀ param ∈ method.params, hierarchy.validType false param.type = true) ∧
      methods.peek method.name = none ∧
      (∀ sig ∈ methods.lookup method.name, sig.agrees (method.signature decl.name) = true) ∧
      methods.add method.name (method.signature decl.name) = after := by
  refine (decides_checkHead decl method).bind_unit fun _ => ?_
  refine Decides.report_of_isSome ?_
  exact (decides_checkOverride decl method _).bind_unit fun _ => .pure _

theorem reporting_declareMethod (decl : ClassDecl) (methods : Scopes Signature)
    (method : MethodDecl) : Reporting (declareMethod hierarchy decl methods method) :=
  (@decides_declareMethod hierarchy True decl methods method).reporting

theorem inherited_eq_enter {α : Type} {table : ClassInfo → Scopes α} {info above : ClassInfo}
    {parent : String} (hparent : info.parent = some parent)
    (habove : hierarchy.get? parent = some above) :
    hierarchy.inherited info table = (table above).enter := by
  simp only [inherited, hparent, habove, Option.elim_some]

theorem all_inherited {α : Type} {table : ClassInfo → Scopes α} {allowed : α → Prop}
    (info : ClassInfo)
    (hparent : ∀ parent above, info.parent = some parent → hierarchy.get? parent = some above →
      (table above).All allowed) : (hierarchy.inherited info table).All allowed := by
  have hempty : ({} : Scopes α).All allowed := nofun
  unfold inherited
  split
  next => exact hempty
  next parent hinfo =>
    show ((hierarchy.get? parent).elim {} table).All allowed
    cases hget : hierarchy.get? parent with
    | none => exact hempty
    | some above => exact hparent parent above hinfo hget

section Quiet

variable (hrunning : pass.stopped = false)

include hrunning

theorem fields_of_quiet {decl : ClassDecl} {fields : List FieldDecl} {table after : Scopes Ty}
    {allowed : Ty → Prop}
    (hallowed : ∀ field ∈ fields, hierarchy.validType false field.type = true →
      allowed field.type)
    (htable : table.All allowed)
    (hquiet : Quiet pass (fields.foldlM (declareField hierarchy decl) table) after) :
    after.All allowed ∧ ∀ field ∈ fields, hierarchy.validType false field.type = true := by
  refine Quiet.foldlM hrunning (reporting_declareField decl) ?_ htable hquiet
  intro table field next hfield htable hstep
  obtain ⟨hvalid, _, rfl⟩ := (decides_declareField decl table field).holds_of_quiet trivial hrunning
    hstep
  exact ⟨htable.add field.name (hallowed field hfield hvalid), hvalid⟩

theorem methods_of_quiet {decl : ClassDecl} {methods : List MethodDecl}
    {table after : Scopes Signature} {allowed : Signature → Prop}
    (hallowed : ∀ method ∈ methods, hierarchy.validType true method.returnType = true →
      allowed (method.signature decl.name))
    (htable : table.All allowed)
    (hquiet : Quiet pass (methods.foldlM (declareMethod hierarchy decl) table) after) :
    after.All allowed ∧
      ∀ method ∈ methods, hierarchy.validType true method.returnType = true ∧
        ∀ param ∈ method.params, hierarchy.validType false param.type = true := by
  refine Quiet.foldlM hrunning (reporting_declareMethod decl) ?_ htable hquiet
  intro table method next hmethod htable hstep
  obtain ⟨hhead, _, _, rfl⟩ := (decides_declareMethod decl table method).holds_of_quiet trivial
    hrunning hstep
  exact ⟨htable.add method.name (hallowed method hmethod hhead.1), hhead⟩

end Quiet

/-! ## Collecting all classes -/

/-- The same classes, whose tables are free of the error type. -/
structure Collected (linked hierarchy : Hierarchy) : Prop where
  names : hierarchy.names = linked.names
  describes : ∀ name, (hierarchy.get? name).map ClassInfo.describes =
    (linked.get? name).map ClassInfo.describes
  errorFree : hierarchy.ErrorFree

theorem validType_of_names {other : Hierarchy} (hnames : other.names = hierarchy.names) :
    other.validType = hierarchy.validType :=
  validType_congr (contains_congr fun name => by rw [hnames])

theorem get?_withTables (name : String) (tables : Tables) (other : String) :
    (hierarchy.modify name fun info => withTables info tables).get? other =
      (hierarchy.get? other).map fun info =>
        if other = name then withTables info tables else info := by
  rw [get?_modify]
  exact fun _ => rfl

theorem Collected.withTables (hcollected : Collected linked hierarchy) (name : String)
    {tables : Tables} (hfields : tables.1.ErrorFree)
    (hmethods : tables.2.All fun sig => sig.returnType.errorFree = true) :
    Collected linked (hierarchy.modify name fun info => Hierarchy.withTables info tables) where
  names := by
    rw [names_modify, hcollected.names]
    exact fun _ => rfl
  describes := by
    intro other
    rw [get?_withTables, ← hcollected.describes, Option.map_map]
    congr 1
    funext info
    simp only [Function.comp]
    split <;> rfl
  errorFree := by
    have hother {other : String} {info : ClassInfo}
        (hget : (hierarchy.modify name fun info => Hierarchy.withTables info tables).get? other =
          some info) :
        info.fields.ErrorFree ∧ info.methods.All fun sig => sig.returnType.errorFree = true := by
      rw [get?_withTables, Option.map_eq_some_iff] at hget
      obtain ⟨info, hget, rfl⟩ := hget
      split
      next => exact ⟨hfields, hmethods⟩
      next =>
        exact ⟨hcollected.errorFree.fields other info hget,
          hcollected.errorFree.methods other info hget⟩
    exact ⟨fun _ _ hget => (hother hget).1, fun _ _ hget => (hother hget).2⟩

theorem reporting_declareMembers (decl : ClassDecl) (start : Tables) :
    Reporting (declareMembers hierarchy decl start) :=
  .bind (.foldlM (reporting_declareField decl) _ _) fun _ =>
    .bind (.foldlM (reporting_declareMethod decl) _ _) fun _ => .pure _

theorem reporting_makeTables (program : Program) (info : ClassInfo) :
    Reporting (makeTables program hierarchy info) := by
  unfold makeTables
  split
  next => exact .pure _
  next decl _ => exact reporting_declareMembers decl _

theorem reporting_collectClass (program : Program) (name : String) :
    Reporting (collectClass program hierarchy name) := by
  simp only [collectClass]
  split
  next => exact .pure _
  next info _ => exact .bind (reporting_makeTables program info) fun _ => .unlessStopped _ _

/-- Members are entered without a record if the fields and then the methods are. -/
theorem quiet_declareMembers_iff (hrunning : pass.stopped = false) {decl : ClassDecl}
    {start tables : Tables} :
    Quiet pass (declareMembers hierarchy decl start) tables ↔
      Quiet pass (decl.fields.foldlM (declareField hierarchy decl) start.1) tables.1 ∧
        Quiet pass (decl.methods.foldlM (declareMethod hierarchy decl) start.2) tables.2 := by
  have hmethods (table : Scopes Signature) :
      Reporting (decl.methods.foldlM (declareMethod hierarchy decl) table) :=
    .foldlM (reporting_declareMethod decl) _ table
  rw [declareMembers, quiet_bind_iff hrunning (.foldlM (reporting_declareField decl) _ _)
    fun _ => .bind (hmethods _) fun _ => .pure _]
  simp only [quiet_bind_iff hrunning (hmethods _) fun _ => Reporting.pure _, quiet_pure_iff]
  constructor
  · rintro ⟨fields, hfields, methods, hmethods, rfl⟩
    exact ⟨hfields, hmethods⟩
  · rintro ⟨hfields, hmethods⟩
    exact ⟨_, hfields, _, hmethods, rfl⟩

/-- The tables of one declaration. -/
theorem Collected.declare (hrunning : pass.stopped = false)
    (hcollected : Collected linked hierarchy) {decl : ClassDecl}
    (hwritten : ∀ written ∈ decl.writtenTypes, written.errorFree = true)
    {info : ClassInfo} {tables : Tables}
    (hquiet : Quiet pass (declareMembers hierarchy decl
      (hierarchy.inherited info ClassInfo.fields, hierarchy.inherited info ClassInfo.methods))
      tables) :
    (tables.1.ErrorFree ∧ tables.2.All fun sig => sig.returnType.errorFree = true) ∧
      HeadsValid linked decl := by
  obtain ⟨hfields, hmethods⟩ := (quiet_declareMembers_iff hrunning).mp hquiet
  obtain ⟨hfieldTable, hfieldTypes⟩ := fields_of_quiet hrunning
    (fun field hfield _ => hwritten _ (ClassDecl.type_mem_writtenTypes hfield))
    (all_inherited info fun parent above _ => hcollected.errorFree.fields parent above) hfields
  obtain ⟨hmethodTable, hheads⟩ := methods_of_quiet hrunning
    (fun method hmethod _ => hwritten _ (ClassDecl.returnType_mem_writtenTypes hmethod))
    (all_inherited info fun parent above _ => hcollected.errorFree.methods parent above) hmethods
  refine ⟨⟨hfieldTable, hmethodTable⟩, ?_⟩
  simp only [validType_of_names hcollected.names] at hfieldTypes hheads
  exact ⟨hfieldTypes, fun method hmethod => (hheads method hmethod).1,
    fun method hmethod => (hheads method hmethod).2⟩

section Run

variable {program : Program} {name : String} {next : Hierarchy}
  (hrunning : pass.stopped = false)
  (hwritten : ∀ decl ∈ program.classes, ∀ written ∈ decl.writtenTypes, written.errorFree = true)

include hrunning hwritten

theorem Collected.collectClass (hcollected : Collected linked hierarchy)
    (hquiet : Quiet pass (Hierarchy.collectClass program hierarchy name) next) :
    Collected linked next ∧ ∀ info decl, linked.get? name = some info →
      declaration? program info = some decl → HeadsValid linked decl := by
  have hdescribes := hcollected.describes name
  simp only [Hierarchy.collectClass] at hquiet
  cases hget : hierarchy.get? name with
  | none =>
      simp only [hget, quiet_pure_iff] at hquiet
      rw [hget, Option.map_none, eq_comm, Option.map_eq_none_iff] at hdescribes
      subst hquiet
      refine ⟨hcollected, ?_⟩
      intro info decl hlinked
      rw [hdescribes] at hlinked
      cases hlinked
  | some info =>
      have hsame {other : ClassInfo} (hother : linked.get? name = some other) :
          declaration? program other = declaration? program info := by
        rw [hget, hother, Option.map_some, Option.map_some, Option.some.injEq] at hdescribes
        rw [declaration?, declaration?, hdescribes]
      simp only [hget] at hquiet
      rw [quiet_bind_iff hrunning (reporting_makeTables program info) fun _ =>
        .unlessStopped _ _] at hquiet
      obtain ⟨tables, hmakes, hquiet⟩ := hquiet
      rw [quiet_unlessStopped_iff hrunning] at hquiet
      subst hquiet
      unfold makeTables at hmakes
      cases hdecl : declaration? program info with
      | none =>
          simp only [hdecl, quiet_pure_iff] at hmakes
          subst hmakes
          refine ⟨hcollected.withTables name (hcollected.errorFree.fields name info hget)
            (hcollected.errorFree.methods name info hget), ?_⟩
          intro other decl hother hfound
          rw [hsame hother, hdecl] at hfound
          cases hfound
      | some decl =>
          simp only [hdecl] at hmakes
          obtain ⟨⟨hfields, hmethods⟩, hheads⟩ := hcollected.declare hrunning
            (hwritten decl (List.mem_of_find?_eq_some hdecl)) hmakes
          refine ⟨hcollected.withTables name hfields hmethods, ?_⟩
          intro other found hother hfound
          rw [hsame hother, hdecl, Option.some.injEq] at hfound
          exact hfound ▸ hheads

theorem Collected.collectMembers (hcollected : Collected linked linked)
    (hquiet : Quiet pass (Hierarchy.collectMembers program linked) next) :
    Collected linked next ∧ ∀ name ∈ linked.rootFirst, ∀ info decl, linked.get? name = some info →
      declaration? program info = some decl → HeadsValid linked decl :=
  Quiet.foldlM hrunning (fun _ => reporting_collectClass program)
    (fun _ _ _ _ hkept hstep => hkept.collectClass hrunning hwritten hstep) hcollected hquiet

end Run

/-! ## Programs without records -/

/-- A class of a program without records was declared there. -/
theorem Assembles.exists_declaration {program : Program} {base : Hierarchy}
    {linking : List Diagnostic} (hall : Assembles program base linked [] linking)
    {name : String} {info : ClassInfo} (hget : linked.get? name = some info) :
    ∃ decl, declaration? program info = some decl := by
  have hsame := hall.same.map_get? name ClassInfo.describes fun _ => rfl
  rw [hget, Option.map_some, eq_comm, Option.map_eq_some_iff] at hsame
  obtain ⟨found, hfound, hdescribes⟩ := hsame
  have hmem := mem_of_get? hfound
  rw [hall.complete rfl] at hmem
  obtain ⟨decl, hdecl, rfl⟩ := List.mem_map.mp hmem
  have hprogram : decl ∈ program.classes :=
    (List.filter_append_perm ClassDecl.isBuiltin program.classes).mem_iff.mp hdecl
  have hself : info.describes decl = true := by
    rw [← hdescribes]
    simp [ClassInfo.describes, ClassInfo.ofDecl]
  have hsome := List.find?_isSome.mpr ⟨decl, hprogram, hself⟩
  exact Option.isSome_iff_exists.mp hsome

namespace Builds

variable {program : Program} {base : Hierarchy} {linking : List Diagnostic}
  (hbuilds : Builds program base linked [] linking)

include hbuilds

/-- The tables are empty before members are collected. -/
theorem errorFree : linked.ErrorFree := by
  have htables {name : String} {info : ClassInfo} (hget : linked.get? name = some info) :
      info.fields = {} ∧ info.methods = {} := by
    have hsame := hbuilds.same.map_get? name (fun info => (info.fields, info.methods)) fun _ => rfl
    rw [hget, Option.map_some, eq_comm, Option.map_eq_some_iff] at hsame
    obtain ⟨found, hfound, htables⟩ := hsame
    have hmem := mem_of_get? hfound
    rw [hbuilds.classes rfl] at hmem
    obtain ⟨decl, _, rfl⟩ := List.mem_map.mp hmem
    rw [Prod.mk.injEq] at htables
    exact ⟨htables.1.symm, htables.2.symm⟩
  constructor
  · intro name info hget
    rw [(htables hget).1]
    exact nofun
  · intro name info hget
    rw [(htables hget).2]
    exact nofun

theorem nodup_names (huser : ∀ decl ∈ program.classes, decl.isBuiltin = false) :
    (program.withBuiltins.classes.map ClassDecl.name).Nodup := by
  have hdistinct : ((Builtin.classes ++ program.classes).map ClassDecl.name).Nodup := by
    simpa [Distinct, names, hbuilds.classes rfl, Function.comp_def, ClassInfo.ofDecl]
      using hbuilds.isBase.distinct
  rw [classes_withBuiltins huser]
  exact (List.perm_append_comm.map _).nodup_iff.mp hdistinct

/-- Every class of the program is in the tree, and its declaration is found there. -/
theorem exists_describes (huser : ∀ decl ∈ program.classes, decl.isBuiltin = false)
    {decl : ClassDecl} (hdecl : decl ∈ program.classes) :
    ∃ info, linked.get? decl.name = some info ∧ info.describes decl = true ∧
      declaration? program.withBuiltins info = some decl := by
  have hmem : ClassInfo.ofDecl decl ∈ base.classes := by
    rw [hbuilds.classes rfl]
    exact List.mem_map_of_mem (List.mem_append_right _ hdecl)
  have hsame := hbuilds.same.map_get? decl.name ClassInfo.describes fun _ => rfl
  rw [show base.get? decl.name = some (.ofDecl decl) from get?_name hbuilds.isBase.distinct hmem,
    Option.map_some, Option.map_eq_some_iff] at hsame
  obtain ⟨info, hget, hinfo⟩ := hsame
  have hself : info.describes decl = true := by
    rw [hinfo]
    simp [ClassInfo.describes, ClassInfo.ofDecl]
  refine ⟨info, hget, hself, ?_⟩
  have hknown : decl ∈ program.withBuiltins.classes := by
    rw [classes_withBuiltins huser]
    exact List.mem_append_left _ hdecl
  cases hfound : declaration? program.withBuiltins info with
  | none => exact absurd hself (List.find?_eq_none.mp hfound decl hknown)
  | some found =>
      have hdescribes := List.find?_some hfound
      have hname : found.name = decl.name := by
        simp only [ClassInfo.describes, Bool.and_eq_true, beq_iff_eq] at hdescribes hself
        rw [hdescribes.1.1, hself.1.1]
      rw [List.inj_on_of_nodup_map (hbuilds.nodup_names huser) (List.mem_of_find?_eq_some hfound)
        hknown hname]

end Builds

/-- What is known of a program whose classes are collected without a record. -/
structure Prepared (program : Program) (hierarchy : Hierarchy) : Prop where
  errorFree : hierarchy.ErrorFree
  describes : ∀ decl ∈ program.classes,
    ∃ info, hierarchy.get? decl.name = some info ∧ info.describes decl = true
  heads : ∀ decl ∈ program.classes, HeadsValid hierarchy decl

theorem errorFree_builtins :
    ∀ decl ∈ Builtin.classes, ∀ written ∈ decl.writtenTypes, written.errorFree = true := by
  decide

theorem prepared_of_quiet {program : Program}
    (huser : ∀ decl ∈ program.classes, decl.isBuiltin = false)
    (hwritten : ∀ written ∈ program.writtenTypes, written.errorFree = true)
    {log : Log} {collected : Hierarchy}
    (hbuild : (build program.withBuiltins).runOn log = (linked, { log := log }))
    (hcollect : (collectMembers program.withBuiltins linked).runOn log =
      (collected, { log := log })) : Prepared program collected := by
  obtain ⟨base, found, accepting, linking, hbuilds⟩ := exists_builds huser
  obtain ⟨rfl, hrecords⟩ := hbuilds.builds.records_runOn hbuild rfl
  obtain ⟨rfl, rfl⟩ := List.append_eq_nil_iff.mp (List.self_eq_append_right.mp hrecords)
  have hdecls : ∀ decl ∈ program.withBuiltins.classes, ∀ written ∈ decl.writtenTypes,
      written.errorFree = true := by
    rw [classes_withBuiltins huser, List.forall_mem_append]
    refine ⟨fun decl hdecl written hmem => ?_, errorFree_builtins⟩
    exact hwritten written (List.mem_flatMap.mpr ⟨decl, hdecl, hmem⟩)
  have hrunning : ({ log := log } : Pass).stopped = false := rfl
  have hstart : Collected linked linked := ⟨rfl, fun _ => rfl, hbuilds.errorFree⟩
  obtain ⟨hcollected, hheads⟩ := hstart.collectMembers hrunning hdecls hcollect
  refine ⟨hcollected.errorFree, fun decl hdecl => ?_, fun decl hdecl => ?_⟩
  · obtain ⟨info, hget, hself, _⟩ := hbuilds.exists_describes huser hdecl
    have hsame := hcollected.describes decl.name
    rw [hget, Option.map_some, Option.map_eq_some_iff] at hsame
    obtain ⟨final, hfinal, hdescribes⟩ := hsame
    exact ⟨final, hfinal, hdescribes ▸ hself⟩
  · obtain ⟨info, hget, _, hdeclaration⟩ := hbuilds.exists_describes huser hdecl
    have hvisited : decl.name ∈ linked.rootFirst :=
      hbuilds.tree.rootFirst_perm_names.mem_iff.mpr (mem_names_of_get? hget)
    obtain ⟨hfields, hreturns, hparams⟩ := hheads decl.name hvisited info decl hget hdeclaration
    simp only [← validType_of_names hcollected.names] at hfields hreturns hparams
    exact ⟨hfields, hreturns, hparams⟩

end ClassLang.Hierarchy
