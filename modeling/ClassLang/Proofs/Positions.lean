/-
# Where a check reports

Every record of a check that names a file and a line names a place in the program, with
one exception. The method where a program starts may be inherited, and if it does not
suit, the record has the file of the class and the line of the method. If the method is
inherited from a class in another file, that line is counted in the wrong file.
-/

import ClassLang.Proofs.Hierarchy.Positions
import ClassLang.Proofs.Phases

namespace ClassLang

/-! ## Inherited methods -/

/-- The first method of this name that a class declares. -/
def ClassDecl.method? (decl : ClassDecl) (name : String) : Option MethodDecl :=
  decl.methods.find? fun method => method.name == name

theorem ClassDecl.lookup_methodScope (decl : ClassDecl) (name : String) :
    decl.methodScope.lookup name = (decl.method? name).map fun method =>
      method.signature decl.name := by
  unfold methodScope method?
  induction decl.methods with
  | nil => rfl
  | cons method methods ih =>
      rw [List.map_cons, List.lookup_cons, List.find?_cons, ih, BEq.comm]
      cases method.name == name <;> rfl

namespace Program

variable {program : Program}

/-- A class is declared below another one. A class that names no parent is below the
root. -/
def Extends (program : Program) (child parent : ClassDecl) : Prop :=
  child.name ≠ Ty.objectName ∧ parent ∈ Builtin.classes ++ program.classes ∧
    child.parent.getD Ty.objectName = parent.name

/-- The method that a name means in a class, and the class that declares it: the class
itself, or else the nearest one above it. -/
inductive Inherits (program : Program) (name : String) :
    ClassDecl → ClassDecl → MethodDecl → Prop
  | own {decl : ClassDecl} {method : MethodDecl} :
      decl.method? name = some method → Inherits program name decl decl method
  | above {decl parent owner : ClassDecl} {method : MethodDecl} :
      decl.method? name = none → program.Extends decl parent →
        Inherits program name parent owner method → Inherits program name decl owner method

theorem Inherits.mem_methods {name : String} {decl owner : ClassDecl} {method : MethodDecl}
    (hinherits : program.Inherits name decl owner method) : method ∈ owner.methods := by
  induction hinherits with
  | own hfound => exact List.mem_of_find?_eq_some hfound
  | above _ _ _ ih => exact ih

theorem Inherits.owner_mem {name : String} {decl owner : ClassDecl} {method : MethodDecl}
    (hinherits : program.Inherits name decl owner method)
    (hdecl : decl ∈ Builtin.classes ++ program.classes) :
    owner ∈ Builtin.classes ++ program.classes := by
  induction hinherits with
  | own _ => exact hdecl
  | above _ hextends _ ih => exact ih hextends.2.1

end Program

namespace Hierarchy

open CheckM

variable {program : Program} {base linked collected : Hierarchy}
  {collecting : String → List Diagnostic}

section Settled

variable (huser : ∀ decl ∈ program.classes, decl.isBuiltin = false)
  (hbuilds : Builds program base linked [] [])
  (hsettled : Settled program.withBuiltins linked collected collecting linked.rootFirst.reverse)

include huser hbuilds hsettled

omit huser in
theorem Builds.tree_of_collected : collected.IsTree := by
  apply hbuilds.tree.withTables hsettled.names
  intro name info hget
  obtain ⟨tables, hfinal, _⟩ :=
    hsettled.made name (hbuilds.mem_done (mem_names_of_get? hget)) info hget
  exact ⟨tables, hfinal⟩

omit huser in
/-- The parent of a class in the tree is the one of its declaration. -/
theorem Builds.extends_of_parent {name parent : String} {info above : ClassInfo}
    {decl parentDecl : ClassDecl} (hget : collected.get? name = some info)
    (hmade : Made (Builtin.classes ++ program.classes) collected info decl)
    (hparent : info.parent = some parent) (habove : collected.get? parent = some above)
    (hparentMade : Made (Builtin.classes ++ program.classes) collected above parentDecl) :
    program.Extends decl parentDecl := by
  have hname : decl.name = name := hmade.name_eq.symm.trans (name_of_get? hget)
  have hparentName : parentDecl.name = parent :=
    hparentMade.name_eq.symm.trans (name_of_get? habove)
  have hwanted := hbuilds.parent_of_collected hsettled hget
  rw [hparent] at hwanted
  split at hwanted
  next => cases hwanted
  next hroot =>
    refine ⟨hname ▸ hroot, mem_of_declared? hparentMade.declared, ?_⟩
    rw [← hmade.declaredParent_eq, hparentName]
    exact (Option.some.inj hwanted).symm

/-- A class knows its methods from its declaration and from those above it. -/
theorem Builds.exists_inherits (method : String) {name : String} (hname : name ∈ collected.names) :
    ∀ info decl sig, collected.get? name = some info →
      Made (Builtin.classes ++ program.classes) collected info decl →
      collected.method? name method = some sig →
        ∃ owner found, program.Inherits method decl owner found ∧
          sig = found.signature owner.name := by
  have hmade (name : String) (info : ClassInfo) (hget : collected.get? name = some info) :=
    hbuilds.exists_made huser hsettled hget
  have htabled : Tabled (Builtin.classes ++ program.classes) ClassDecl.methodScope
      ClassInfo.methods collected :=
    Made.tabled hmade fun _ _ htables => congrArg ClassInfo.methods htables.symm
  have htree := hbuilds.tree_of_collected hsettled
  -- from parents to children, as the tables are made
  refine htree.induction (fun name hname hparents info decl sig hget hclass hsig => ?_) hname
  have hdecl := hclass.declared
  rw [name_of_get? hget] at hdecl
  have hlookup : collected.method? name method = (decl.methodScope.lookup method).or
      (info.parent.bind fun parent => collected.method? parent method) :=
    htabled.lookup_eq (fun _ _ => rfl) hget hdecl method
  rw [hlookup, decl.lookup_methodScope] at hsig
  cases hown : decl.method? method with
  | some found =>
      rw [hown, Option.map_some, Option.some_or] at hsig
      exact ⟨decl, found, .own hown, (Option.some.inj hsig).symm⟩
  | none =>
      rw [hown, Option.map_none, Option.none_or, Option.bind_eq_some_iff] at hsig
      obtain ⟨parent, hparent, hsig⟩ := hsig
      have hisParent := isParent_of_get? hget hparent
      obtain ⟨above, habove⟩ := exists_get?_of_mem_names (htree.parent_mem name parent hisParent)
      obtain ⟨parentDecl, hparentMade⟩ := hmade parent above habove
      obtain ⟨owner, found, hinherits, heq⟩ :=
        hparents parent hisParent above parentDecl sig habove hparentMade hsig
      have hextends := hbuilds.extends_of_parent hsettled hget hclass hparent habove hparentMade
      exact ⟨owner, found, .above hown hextends hinherits, heq⟩

end Settled

end Hierarchy

/-! ## The entry of a program -/

/-- The method where a program should start is no entry, and the class inherits it from a
class of another file. -/
structure StrayEntry (options : Options) (program : Program) (decl owner : ClassDecl)
    (method : MethodDecl) : Prop where
  required : options.requireMain = true
  declared : decl ∈ program.classes
  name : decl.name = options.mainClass
  inherits : program.Inherits options.mainMethod decl owner method
  unfit : Hierarchy.isEntry (method.signature owner.name) = false
  apart : owner.file ≠ decl.file

/-- The record of a stray entry: the file is that of the class, the line that of the
method. -/
def StrayEntry.IsRecord (options : Options) (program : Program) (record : Diagnostic) : Prop :=
  ∃ decl owner method, StrayEntry options program decl owner method ∧
    record = .located .semantic decl.file method.line
      (Hierarchy.EntryFault.wrongSignature options.mainClass options.mainMethod).message

/-- A record at a place of the program, or that of a stray entry. -/
def Options.Allows (options : Options) (program : Program) (record : Diagnostic) : Prop :=
  program.Places record ∨ StrayEntry.IsRecord options program record

namespace Hierarchy

open CheckM

variable {program : Program} {base linked collected : Hierarchy}
  {collecting : String → List Diagnostic} {options : Options}

theorem builtin_isBuiltin : ∀ decl ∈ Builtin.classes,
    (decl.isBuiltin && Builtin.isName decl.name) = true := by
  decide

/-- An inherited method that is declared in the file of the class is at a place of the
program. -/
theorem places_inherited (huser : ∀ decl ∈ program.classes, decl.isBuiltin = false)
    {decl owner : ClassDecl} {method : MethodDecl} {name : String}
    (hdecl : decl ∈ program.classes) (hinherits : program.Inherits name decl owner method)
    (hfile : owner.file = decl.file) (stage : Stage) (message : String) :
    program.Places (.located stage decl.file method.line message) := by
  have howner := hinherits.owner_mem (List.mem_append_right _ hdecl)
  rcases List.mem_append.mp howner with hbuiltin | hown
  · have hnot := huser decl hdecl
    have hboth := builtin_isBuiltin owner hbuiltin
    rw [Bool.and_eq_true, ClassDecl.isBuiltin, hfile] at hboth
    rw [ClassDecl.isBuiltin, hboth.1] at hnot
    cases hnot
  · rw [← hfile]
    exact Program.places_located hown (ClassDecl.method_line_mem_lines hinherits.mem_methods) _ _

theorem Builds.confined_checkEntry
    (huser : ∀ decl ∈ program.classes, decl.isBuiltin = false)
    (hbuilds : Builds program base linked [] [])
    (hsettled : Settled program.withBuiltins linked collected collecting
      linked.rootFirst.reverse) (hrequired : options.requireMain = true) :
    Confined (options.Allows program)
      (collected.checkEntry options.mainClass options.mainMethod) := by
  unfold checkEntry
  cases hentry : collected.entryClass? options.mainClass with
  | none => exact .report (.inl (Program.places_general _ _))
  | some info =>
      obtain ⟨hget, hown⟩ := Option.filter_eq_some_iff.mp hentry
      obtain ⟨decl, hmade⟩ := hbuilds.exists_made huser hsettled hget
      have hname : decl.name = options.mainClass := hmade.name_eq.symm.trans (name_of_get? hget)
      have hdecl : decl ∈ program.classes := by
        rcases List.mem_append.mp (mem_of_declared? hmade.declared) with hbuiltin | hdecl
        · rw [hmade.builtin_eq, builtin_isBuiltin decl hbuiltin] at hown
          cases hown
        · exact hdecl
      simp only [hmade.file_eq, hmade.line_eq]
      cases hsig : info.methods.lookup options.mainMethod with
      | none => exact .report (.inl (Program.places_located hdecl decl.line_mem_lines _ _))
      | some sig =>
          have hmethod : collected.method? options.mainClass options.mainMethod = some sig := by
            rw [method?, hget, Option.bind_some, hsig]
          obtain ⟨owner, method, hinherits, rfl⟩ := hbuilds.exists_inherits huser hsettled _
            (mem_names_of_get? hget) info decl sig hget hmade hmethod
          refine .require fun hunfit => ?_
          by_cases hfile : owner.file = decl.file
          · exact .inl (places_inherited huser hdecl hinherits hfile _ _)
          · exact .inr
              ⟨decl, owner, method, ⟨hrequired, hdecl, hname, hinherits, hunfit, hfile⟩, rfl⟩

end Hierarchy

namespace Analysis

open CheckM

variable {program : Program}

theorem mem_of_mem_conclude {limit : Nat} {records : List Diagnostic}
    {value : Hierarchy × Program} {record : Diagnostic}
    (hrecord : record ∈ (conclude ((Pass.fresh limit).reportAll records) value).log.records) :
    record ∈ records := by
  rw [conclude, Pass.records_reportAll_fresh] at hrecord
  exact List.mem_of_mem_take hrecord

theorem confined_checkBodies (huser : ∀ decl ∈ program.classes, decl.isBuiltin = false)
    {options : Options} {hierarchy : Hierarchy}
    (hentry : options.requireMain = true → Confined (options.Allows program)
      (hierarchy.checkEntry options.mainClass options.mainMethod)) :
    Confined (options.Allows program) (checkBodies options hierarchy program.withBuiltins) := by
  have htypes : Confined (options.Allows program)
      (Typing.checkProgram hierarchy program.withBuiltins) := by
    refine Typing.confined_checkProgram hierarchy _ fun decl hdecl hown line hline message => ?_
    rw [Hierarchy.classes_withBuiltins huser, List.mem_append] at hdecl
    rcases hdecl with hdecl | hbuiltin
    · exact .inl (Program.places_located hdecl hline _ _)
    · have hboth := Hierarchy.builtin_isBuiltin decl hbuiltin
      rw [hown] at hboth
      cases hboth
  unfold checkBodies
  cases hrequired : options.requireMain with
  | false => exact .bind htypes fun _ => .pure _
  | true => exact .bind (hentry hrequired) fun _ => .bind htypes fun _ => .pure _

/-- Every record names a place of the program or no place at all, except for that of an
entry that is inherited from another file. -/
theorem check_places (huser : ∀ decl ∈ program.classes, decl.isBuiltin = false)
    (options : Options) :
    ∀ record ∈ (check options program).log.records,
      program.Places record ∨ StrayEntry.IsRecord options program record := by
  obtain ⟨base, linked, accepting, linking, hbuilds⟩ := Hierarchy.exists_builds huser
  intro record hrecord
  rw [check_of_reports_build options hbuilds.builds] at hrecord
  split at hrecord
  next hquiet =>
    obtain ⟨rfl, rfl⟩ := List.append_eq_nil_iff.mp hquiet
    obtain ⟨collected, annotated, collecting, typing, hsurveys⟩ :=
      exists_surveys options hbuilds.tree program.withBuiltins
    rw [finish_eq_conclude hsurveys.members] at hrecord
    rcases List.mem_append.mp (mem_of_mem_conclude hrecord) with hmember | hbody
    · obtain ⟨name, hname, hmember⟩ := List.mem_flatMap.mp hmember
      have hknown := hbuilds.tree.rootFirst_perm_names.mem_iff.mp hname
      exact .inl (hbuilds.places_collecting huser hsurveys.settled hknown record hmember)
    · have hbodies := confined_checkBodies huser fun (hrequired : options.requireMain = true) =>
        hbuilds.confined_checkEntry huser hsurveys.settled hrequired
      exact hbodies.of_yields hsurveys.types record hbody
  next =>
    rcases List.mem_append.mp (mem_of_mem_conclude hrecord) with haccepting | hlinking
    · exact .inl (hbuilds.places_accepting huser record haccepting)
    · exact .inl (hbuilds.places_linking huser record hlinking)

/-- A class that inherits a method with a parameter from another file, where it should
start, and that returns a value where there is none to return. -/
def strayProgram : Program where
  classes :=
    [{ name := "Main", parent := some "Base", file := "a", line := 1, members :=
        [.method ⟨"run", .void, [], [.ret (some (.unchecked 3 (.int 1))) 3], 2⟩] },
      { name := "Base", file := "b", line := 1, members :=
        [.method ⟨"main", .void, [⟨"x", .int⟩], [], 7⟩] }]

theorem strayProgram_places :
    (∀ decl ∈ strayProgram.classes, decl.isBuiltin = false) ∧
      (check {} strayProgram).log.count = 2 ∧
      ∀ record ∈ (check {} strayProgram).log.records,
        strayProgram.Places record ∨ StrayEntry.IsRecord {} strayProgram record := by
  have huser : ∀ decl ∈ strayProgram.classes, decl.isBuiltin = false := by decide
  have hcount : (check {} strayProgram).log.count = 2 := by decide +kernel
  exact ⟨huser, hcount, check_places huser {}⟩

/-- The first file has no line 7, but a record says so. -/
theorem strayProgram_misplaced :
    ∃ record ∈ (check {} strayProgram).log.records, ¬ strayProgram.Places record := by
  have hstray : (check {} strayProgram).log.records.any
      (fun record => record.file = some "a" ∧ record.line = some 7) = true := by decide +kernel
  obtain ⟨record, hrecord, hplace⟩ := List.any_eq_true.mp hstray
  obtain ⟨hfile, hline⟩ := of_decide_eq_true hplace
  exact ⟨record, hrecord, fun hplaces => absurd (hplaces "a" 7 hfile hline) (by decide)⟩

end Analysis

end ClassLang
