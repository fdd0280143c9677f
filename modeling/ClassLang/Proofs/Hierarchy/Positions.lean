/-
# Where the class tree and its members report

What is wrong with the name, the parent or a member of a class is reported at a line of
its declaration, in the file of the declaration. The built-in classes are accepted, linked
and collected without a record, whatever classes the program adds to them. So all of these
records are at lines of the program.
-/

import ClassLang.Proofs.Hierarchy.Lookup
import ClassLang.Proofs.Typing.Positions

namespace ClassLang

/-- If the record names a place, it is one of the program: a class that is declared in the
named file has a part at the named line. -/
def Program.Places (program : Program) (record : Diagnostic) : Prop :=
  ∀ file line, record.file = some file → record.line = some line →
    ∃ decl ∈ program.classes, decl.file = file ∧ line ∈ decl.lines

variable {program : Program}

theorem Program.places_located {decl : ClassDecl} (hdecl : decl ∈ program.classes) {line : Nat}
    (hline : line ∈ decl.lines) (stage : Stage) (message : String) :
    program.Places (.located stage decl.file line message) := by
  rintro file found ⟨rfl⟩ ⟨rfl⟩
  exact ⟨decl, hdecl, rfl, hline⟩

theorem Program.places_general (stage : Stage) (message : String) :
    program.Places (.general stage message) :=
  fun _ _ hfile => nomatch hfile

theorem ClassDecl.line_mem_lines (decl : ClassDecl) : decl.line ∈ decl.lines :=
  List.mem_cons_self

theorem ClassDecl.field_line_mem_lines {decl : ClassDecl} {field : FieldDecl}
    (hfield : field ∈ decl.fields) : field.line ∈ decl.lines := by
  obtain ⟨member, hmember, hsome⟩ := List.mem_filterMap.mp hfield
  cases member with
  | method other => cases hsome
  | field other =>
      cases hsome
      exact List.mem_cons_of_mem _ (List.mem_flatMap_of_mem hmember List.mem_cons_self)

theorem ClassDecl.method_line_mem_lines {decl : ClassDecl} {method : MethodDecl}
    (hmethod : method ∈ decl.methods) : method.line ∈ decl.lines := by
  obtain ⟨member, hmember, hsome⟩ := List.mem_filterMap.mp hmethod
  cases member with
  | field other => cases hsome
  | method other =>
      cases hsome
      exact List.mem_cons_of_mem _ (List.mem_flatMap_of_mem hmember List.mem_cons_self)

namespace Hierarchy

open CheckM

variable {hierarchy base linked collected : Hierarchy} {accepting linking : List Diagnostic}
  {collecting : String → List Diagnostic}

/-! ## Names -/

theorem confined_accept {decl : ClassDecl} (hdecl : decl ∈ program.classes)
    (hierarchy : Hierarchy) : Confined program.Places (accept hierarchy decl) := by
  unfold accept
  cases hrejection : hierarchy.rejection? decl with
  | none => exact .pure _
  | some record =>
      obtain ⟨fault, _, rfl⟩ := fault_of_rejection? hrejection
      exact .bind (.report (Program.places_located hdecl decl.line_mem_lines _ _)) fun _ => .pure _

theorem Builds.places_accepting (huser : ∀ decl ∈ program.classes, decl.isBuiltin = false)
    (hbuilds : Builds program base linked accepting linking) :
    ∀ record ∈ accepting, program.Places record := by
  have haccepts := hbuilds.accepts
  rw [declarations_withBuiltins huser, List.foldlM_append] at haccepts
  -- the built-in classes come first, when none of their names is taken
  have hbuiltin : Confined program.Places (Builtin.classes.foldlM accept {}) :=
    fun _ => ⟨[], rfl, nofun⟩
  refine Confined.of_yields (hbuiltin.bind fun start => ?_) haccepts.yields
  exact .foldlM (fun decl hdecl hierarchy => confined_accept hdecl hierarchy) start

/-! ## Parents -/

theorem builtin_root_or_below : ∀ decl ∈ Builtin.classes,
    decl.name = Ty.objectName ∨ decl.parent = some Ty.objectName := by
  decide

/-- A built-in class below the root keeps its parent: that is the root, which is extendable
and on no cycle. -/
theorem IsBase.not_defaulted (hbase : IsBase hierarchy) {decl : ClassDecl}
    (hdecl : decl ∈ Builtin.classes) (hroot : decl.name ≠ Ty.objectName)
    (hget : hierarchy.get? decl.name = some (.ofDecl decl)) :
    ¬ hierarchy.Defaulted hierarchy.linkedNames decl.name := by
  have hparent := (builtin_root_or_below decl hdecl).resolve_left hroot
  rintro (⟨parent, ⟨_, info, hinfo, rfl⟩, hclosed⟩ | hcycle)
  · obtain rfl := Option.some.inj (hget.symm.trans hinfo)
    have hwanted : (ClassInfo.ofDecl decl).wantedParent = Ty.objectName :=
      congrArg (fun parent => Option.getD parent Ty.objectName) hparent
    exact hclosed (hwanted ▸ ⟨_, hbase.root, rfl⟩)
  · rw [hbase.transGen_links_iff fun name hname hne => mem_linkedNames.mpr ⟨hname, hne⟩] at hcycle
    exact hbase.not_onCycle_root (onCycle_of_declares hcycle ⟨_, hget, hparent⟩)

theorem Builds.places_linking (huser : ∀ decl ∈ program.classes, decl.isBuiltin = false)
    (hbuilds : Builds program base linked accepting linking) :
    ∀ record ∈ linking, program.Places record := by
  intro record hrecord
  obtain ⟨defaulted, _, hmem, hlinking⟩ := hbuilds.records
  have hsome : some record ∈ defaulted.map base.linkRecord? :=
    hlinking ▸ List.mem_map_of_mem hrecord
  obtain ⟨name, hname, hlink⟩ := List.mem_map.mp hsome
  obtain ⟨hlinked, hdefaulted⟩ := (hmem name).mp hname
  obtain ⟨info, hget, rfl⟩ := Option.map_eq_some_iff.mp hlink
  obtain ⟨decl, hdecl, rfl⟩ := hbuilds.accepted.exists_decl (mem_of_get? hget)
  obtain rfl : decl.name = name := name_of_get? hget
  rw [declarations_withBuiltins huser, List.mem_append] at hdecl
  rcases hdecl with hbuiltin | hown
  · have hroot := (mem_linkedNames.mp hlinked).2
    exact absurd hdefaulted (hbuilds.isBase.not_defaulted hbuiltin hroot hget)
  · exact Program.places_located hown decl.line_mem_lines _ _

/-- If nothing is reported, all classes have the parents that they ask for. -/
theorem Builds.parent_eq (hbuilds : Builds program base linked accepting []) {name : String}
    {info : ClassInfo} (hget : linked.get? name = some info) :
    info.parent = if name = Ty.objectName then none else some info.wantedParent := by
  have hparent : linked.parent? name = info.parent := by
    rw [parent?, hget, Option.bind_some]
  rw [← hparent]
  split
  next hroot => rw [hroot, hbuilds.parent?_root]
  next hroot =>
    refine hbuilds.parent_of_not_mustDefault ⟨hroot, info, hget, rfl⟩ fun hdefault => ?_
    obtain ⟨defaulted, _, hmem, hnone⟩ := hbuilds.records
    obtain rfl : defaulted = [] := List.map_eq_nil_iff.mp hnone.symm
    exact List.not_mem_nil ((hmem name).mpr (hbuilds.mustDefault_iff.mp hdefault))

/-! ## Members -/

theorem confined_declareMembers {decl : ClassDecl} (hdecl : decl ∈ program.classes)
    (hierarchy : Hierarchy) (start : Tables) :
    Confined program.Places (declareMembers hierarchy decl start) := by
  have hplaces {line : Nat} (hline : line ∈ decl.lines) (fault : MemberFault) :
      program.Places (fault.at decl line) :=
    Program.places_located hdecl hline _ _
  refine .bind (.foldlM (fun field hfield fields => ?_) _) fun _ =>
    .bind (.foldlM (fun method hmethod methods => ?_) _) fun _ => .pure _
  · have hline := hplaces (ClassDecl.field_line_mem_lines hfield)
    exact .bind (.require fun _ => hline _) fun _ =>
      .ite (fun _ => .bind (.report (hline _)) fun _ => .pure _) fun _ => .pure _
  · have hline := hplaces (ClassDecl.method_line_mem_lines hmethod)
    have hhead : Confined program.Places (checkHead hierarchy decl method) :=
      .bind (.require fun _ => hline _) fun _ => .forM fun _ _ => .require fun _ => hline _
    refine .bind hhead fun _ => .ite (fun _ => .bind (.report (hline _)) fun _ => .pure _) fun _ =>
      .bind ?_ fun _ => .pure _
    cases methods.lookup method.name with
    | none => exact .pure ()
    | some sig => exact .require fun _ => hline _

/-- Where more types exist, methods that were entered quietly still are. -/
theorem quiet_declareMethods {pass : Pass} (hrunning : pass.stopped = false)
    {other : Hierarchy}
    (hvalid : ∀ allowVoid type, hierarchy.validType allowVoid type = true →
      other.validType allowVoid type = true)
    {decl : ClassDecl} {methods : List MethodDecl} {table after : Scopes Signature}
    (hquiet : Quiet pass (methods.foldlM (declareMethod hierarchy decl) table) after) :
    Quiet pass (methods.foldlM (declareMethod other decl) table) after := by
  induction methods generalizing table with
  | nil => exact hquiet
  | cons method methods ih =>
      rw [List.foldlM_cons, quiet_bind_iff hrunning (reporting_declareMethod decl table method)
        fun next => .foldlM (reporting_declareMethod decl) _ next] at hquiet ⊢
      obtain ⟨next, hstep, hrest⟩ := hquiet
      obtain ⟨⟨hreturn, hparams⟩, hnew, hkept, hnext⟩ :=
        (decides_declareMethod decl table method).holds_of_quiet trivial hrunning hstep
      obtain ⟨_, hother, rfl⟩ :=
        ((decides_declareMethod decl table method).quiet_iff trivial hrunning).mpr
          ⟨⟨hvalid _ _ hreturn, fun param hparam => hvalid _ _ (hparams param hparam)⟩, hnew, hkept,
            hnext⟩
      exact ⟨_, hother, ih hrest⟩

theorem validType_mono {other : Hierarchy} (hnames : hierarchy.names ⊆ other.names)
    {allowVoid : Bool} {type : Ty} (htype : hierarchy.validType allowVoid type = true) :
    other.validType allowVoid type = true := by
  induction type generalizing allowVoid with
  | named className => exact contains_iff_mem_names.mpr (hnames (contains_iff_mem_names.mp htype))
  | array elem ih => exact ih htype
  | void | int | boolean | null | error => exact htype

/-- The built-in classes alone. -/
def builtins : Hierarchy :=
  ⟨Builtin.classes.map .ofDecl⟩

/-- The methods that a built-in class inherits. -/
def builtinInherited (decl : ClassDecl) : Scopes Signature :=
  if decl.name = Ty.objectName then {}
  else (({} : Scopes Signature).addAll Builtin.objectClass.methodScope).enter

/-- The built-in classes declare methods only, and those suit what they inherit. -/
theorem builtin_suits_inherited : ∀ decl ∈ Builtin.classes, decl.fields = [] ∧
    ((decl.methods.foldlM (declareMethod builtins decl) (builtinInherited decl)).run
      (Pass.fresh 0)).2.log = (Pass.fresh 0).log := by
  decide +kernel

/-- Whatever other classes there are, nothing is reported on the members of a built-in
class. -/
theorem log_declareMembers_builtin {decl : ClassDecl} (hdecl : decl ∈ Builtin.classes)
    (hnames : builtins.names ⊆ hierarchy.names) (fields : Scopes Ty) :
    ((declareMembers hierarchy decl (fields, builtinInherited decl)).run (Pass.fresh 0)).2.log =
      (Pass.fresh 0).log := by
  obtain ⟨hfields, hlog⟩ := builtin_suits_inherited decl hdecl
  have hmethods := Reporting.quiet_of_log rfl (.foldlM (reporting_declareMethod decl) _ _) hlog
  have hquiet := quiet_declareMethods rfl (fun _ _ => validType_mono hnames) hmethods
  simp only [declareMembers, hfields, List.foldlM_nil, pure_bind]
  rw [StateT.run_bind, hquiet]
  rfl

namespace Made

variable {decls : List ClassDecl} {info : ClassInfo} {decl : ClassDecl}

theorem name_eq (hmade : Made decls hierarchy info decl) : info.name = decl.name :=
  congrArg ClassInfo.name hmade.described

theorem declaredParent_eq (hmade : Made decls hierarchy info decl) :
    info.declaredParent = decl.parent :=
  congrArg ClassInfo.declaredParent hmade.described

theorem file_eq (hmade : Made decls hierarchy info decl) : info.file = decl.file :=
  congrArg ClassInfo.file hmade.described

theorem line_eq (hmade : Made decls hierarchy info decl) : info.line = decl.line :=
  congrArg ClassInfo.line hmade.described

theorem builtin_eq (hmade : Made decls hierarchy info decl) :
    info.builtin = (decl.isBuiltin && Builtin.isName decl.name) :=
  congrArg ClassInfo.builtin hmade.described

end Made

section Settled

variable (huser : ∀ decl ∈ program.classes, decl.isBuiltin = false)
  (hbuilds : Builds program base linked [] [])
  (hsettled : Settled program.withBuiltins linked collected collecting linked.rootFirst.reverse)
  {name : String} {info : ClassInfo}

include hbuilds

theorem Builds.mem_done {name : String} (hname : name ∈ linked.names) :
    name ∈ linked.rootFirst.reverse :=
  List.mem_reverse.mpr (hbuilds.tree.rootFirst_perm_names.mem_iff.mpr hname)

include hsettled

theorem Builds.exists_withTables (hget : collected.get? name = some info) :
    ∃ start tables, linked.get? name = some start ∧ info = withTables start tables ∧
      Yields (makeTables program.withBuiltins collected start) tables (collecting name) := by
  have hname : name ∈ linked.names := hsettled.names ▸ mem_names_of_get? hget
  obtain ⟨start, hstart⟩ := exists_get?_of_mem_names hname
  obtain ⟨tables, hfinal, hmakes⟩ := hsettled.made name (hbuilds.mem_done hname) start hstart
  exact ⟨start, tables, hstart, Option.some.inj (hget.symm.trans hfinal), hmakes⟩

theorem Builds.parent_of_collected (hget : collected.get? name = some info) :
    info.parent = if name = Ty.objectName then none else some info.wantedParent := by
  obtain ⟨start, tables, hstart, rfl, _⟩ := hbuilds.exists_withTables hsettled hget
  have hparent := hbuilds.parent_eq hstart
  exact hparent

include huser

theorem Builds.exists_made (hget : collected.get? name = some info) :
    ∃ decl, Made (Builtin.classes ++ program.classes) collected info decl :=
  Hierarchy.exists_made huser hbuilds hsettled (fun _ => hbuilds.mem_done) hget

theorem Builds.methods_of_root (hget : collected.get? Ty.objectName = some info) :
    info.methods = ({} : Scopes Signature).addAll Builtin.objectClass.methodScope := by
  obtain ⟨decl, hmade⟩ := hbuilds.exists_made huser hsettled hget
  have hdecl := hmade.declared
  rw [name_of_get? hget, declared?_append] at hdecl
  obtain rfl : Builtin.objectClass = decl := Option.some.inj hdecl
  have hparent : info.parent = none := hbuilds.parent_of_collected hsettled hget
  rw [← hmade.tables]
  simp only [withTables, tablesOf, inherited, hparent]

/-- The methods that a built-in class inherits are the same in all programs. -/
theorem Builds.inherited_eq {decl : ClassDecl} (hget : collected.get? name = some info)
    (hmade : Made (Builtin.classes ++ program.classes) collected info decl)
    (hdecl : decl ∈ Builtin.classes) :
    collected.inherited info ClassInfo.methods = builtinInherited decl := by
  have hparent := hbuilds.parent_of_collected hsettled hget
  rw [← name_of_get? hget, hmade.name_eq] at hparent
  unfold builtinInherited
  split
  next hroot =>
    rw [if_pos hroot] at hparent
    simp only [inherited, hparent]
  next hroot =>
    have hwanted : info.wantedParent = Ty.objectName := by
      rw [ClassInfo.wantedParent, hmade.declaredParent_eq,
        (builtin_root_or_below decl hdecl).resolve_left hroot, Option.getD_some]
    rw [if_neg hroot, hwanted] at hparent
    have hknown : Ty.objectName ∈ collected.names := hsettled.names ▸ hbuilds.tree.root_mem
    obtain ⟨root, hgetRoot⟩ := exists_get?_of_mem_names hknown
    rw [inherited_eq_enter hparent hgetRoot, hbuilds.methods_of_root huser hsettled hgetRoot]

omit huser in
theorem Builds.builtins_subset : builtins.names ⊆ collected.names := by
  rw [hsettled.names, hbuilds.same.1, names, names, hbuilds.classes rfl, List.map_append,
    List.map_append]
  exact List.subset_append_left _ _

/-- Members are reported at lines of the program. -/
theorem Builds.places_collecting (hname : name ∈ linked.names) :
    ∀ record ∈ collecting name, program.Places record := by
  intro record hrecord
  rw [← hsettled.names] at hname
  obtain ⟨info, hget⟩ := exists_get?_of_mem_names hname
  obtain ⟨decl, hmade⟩ := hbuilds.exists_made huser hsettled hget
  obtain ⟨start, tables, _, rfl, hmakes⟩ := hbuilds.exists_withTables hsettled hget
  have hdeclaration : declaration? program.withBuiltins start = some decl :=
    declaration?_of_declared? huser hmade.declared hmade.described
  simp only [makeTables, hdeclaration] at hmakes
  rcases List.mem_append.mp (mem_of_declared? hmade.declared) with hbuiltin | hown
  · -- its lines are not those of the program, so there must be no record at all
    have hmethods := hbuilds.inherited_eq huser hsettled hget hmade hbuiltin
    have hlog := log_declareMembers_builtin hbuiltin (hbuilds.builtins_subset hsettled)
      (collected.inherited start ClassInfo.fields)
    rw [← show collected.inherited start ClassInfo.methods = builtinInherited decl from hmethods,
      hmakes.pass_eq, Pass.reportAll_eq_self_iff rfl] at hlog
    rw [hlog] at hrecord
    exact absurd hrecord List.not_mem_nil
  · exact (confined_declareMembers hown collected _).of_yields hmakes record hrecord

end Settled

end Hierarchy

end ClassLang
