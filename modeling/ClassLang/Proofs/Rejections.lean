/-
# Declarations that are rejected

Building the class tree rejects a declaration whose name is reserved or taken. Of those that
it accepts, the tree keeps the name, the file and the line, and the check of types goes by
these three. So the check passes over a rejected declaration, unless it stands in the same
line of the same file as the one that took its name: such a twin is checked as if it had
been accepted. Every accepted declaration outside the built-in file is checked.
-/

import ClassLang.Proofs.ErrorLimit
import ClassLang.Proofs.Typing.Completion

namespace ClassLang

namespace Hierarchy

open CheckM

variable {before after : List ClassDecl} {decl : ClassDecl}

/-! ## Accepted and rejected declarations -/

/-- The declarations that building comes to before one that stands between others. Those of
the built-in file come first. -/
def earlier (before : List ClassDecl) (decl : ClassDecl) (after : List ClassDecl) :
    List ClassDecl :=
  if decl.isBuiltin then before.filter ClassDecl.isBuiltin
  else (before ++ after).filter ClassDecl.isBuiltin ++
    before.filter fun other => !other.isBuiltin

theorem exists_declarations_eq (before : List ClassDecl) (decl : ClassDecl)
    (after : List ClassDecl) :
    ∃ later, declarations ⟨before ++ decl :: after⟩ =
      earlier before decl after ++ decl :: later := by
  cases hbuiltin : decl.isBuiltin with
  | true =>
      refine ⟨after.filter ClassDecl.isBuiltin ++
        (before ++ after).filter fun other => !other.isBuiltin, ?_⟩
      simp [declarations, earlier, hbuiltin]
  | false =>
      refine ⟨after.filter fun other => !other.isBuiltin, ?_⟩
      simp [declarations, earlier, hbuiltin]

/-- The name of a declaration between others is reserved or has been declared. -/
def Rejected (before : List ClassDecl) (decl : ClassDecl) (after : List ClassDecl) : Prop :=
  isReserved decl.name = true ∨ decl.name ∈ (earlier before decl after).map ClassDecl.name

instance : Decidable (Rejected before decl after) :=
  inferInstanceAs (Decidable (_ ∨ _))

/-- A declaration outside the built-in file that stands in the same line of the same file as
the one that took its name. -/
def IsTwin (before : List ClassDecl) (decl : ClassDecl) (after : List ClassDecl) : Prop :=
  decl.isBuiltin = false ∧ ∃ first, first ∈ declared? (earlier before decl after) decl.name ∧
    (first.file = decl.file ∧ first.line = decl.line)

instance : Decidable (IsTwin before decl after) :=
  inferInstanceAs (Decidable (_ ∧ _))

theorem name_of_declared? {decls : List ClassDecl} {name : String} {first : ClassDecl}
    (hfirst : declared? decls name = some first) : first.name = name := by
  unfold declared? at hfirst
  split at hfirst
  · cases hfirst
  · have hname := List.find?_some hfirst
    exact eq_of_beq hname

theorem isSome_declared?_iff {decls : List ClassDecl} {name : String}
    (hreserved : isReserved name = false) :
    (declared? decls name).isSome = true ↔ name ∈ decls.map ClassDecl.name := by
  simp [declared?, hreserved]

theorem Rejected.mem_names (hrejected : Rejected before decl after)
    (hreserved : isReserved decl.name = false) :
    decl.name ∈ (earlier before decl after).map ClassDecl.name := by
  rwa [Rejected, hreserved, or_iff_right Bool.false_ne_true] at hrejected

theorem new_of_not_rejected (haccepted : ¬ Rejected before decl after) :
    isReserved decl.name = false ∧
      decl.name ∉ (earlier before decl after).map ClassDecl.name := by
  rwa [Rejected, not_or, Bool.not_eq_true] at haccepted

theorem IsTwin.rejected (htwin : IsTwin before decl after) : Rejected before decl after := by
  obtain ⟨_, first, hfirst, _⟩ := htwin
  cases hreserved : isReserved decl.name with
  | true => exact .inl hreserved
  | false =>
      rw [Option.mem_def] at hfirst
      exact .inr ((isSome_declared?_iff hreserved).mp (by rw [hfirst, Option.isSome_some]))

/-- A rejected declaration does not change which one its name means. -/
theorem Rejected.declared? (hrejected : Rejected before decl after) :
    Hierarchy.declared? (declarations ⟨before ++ decl :: after⟩) decl.name =
      Hierarchy.declared? (earlier before decl after) decl.name := by
  obtain ⟨later, horder⟩ := exists_declarations_eq before decl after
  cases hreserved : isReserved decl.name with
  | true => simp [Hierarchy.declared?, hreserved]
  | false =>
      rw [horder, declared?_append]
      exact Option.or_of_isSome ((isSome_declared?_iff hreserved).mpr
        (hrejected.mem_names hreserved))

theorem declared?_of_not_rejected (haccepted : ¬ Rejected before decl after) :
    declared? (declarations ⟨before ++ decl :: after⟩) decl.name = some decl := by
  obtain ⟨later, horder⟩ := exists_declarations_eq before decl after
  obtain ⟨hreserved, hnew⟩ := new_of_not_rejected haccepted
  rw [← isSome_declared?_iff hreserved, Bool.not_eq_true, Option.isSome_eq_false_iff,
    Option.isNone_iff_eq_none] at hnew
  rw [horder, declared?_append, hnew, Option.none_or]
  simp [declared?, hreserved]

/-- What building does with a declaration between others. It comes to it with the classes
of the earlier ones. If the declaration is rejected it is reported and the classes stay as
they are, and else its class is added to them. -/
structure Meets (program : Program) (before : List ClassDecl) (decl : ClassDecl)
    (after : List ClassDecl) (tree : Hierarchy) : Prop where
  order : ∃ later, declarations program = earlier before decl after ++ decl :: later
  reached : ∃ records, Reports ((earlier before decl after).foldlM accept {}) tree records
  rejected : Rejected before decl after → ∃ record, Reports (accept tree decl) tree [record]
  accepted : ¬ Rejected before decl after →
    Reports (accept tree decl) (tree.insert (.ofDecl decl)) []

theorem exists_meets (before : List ClassDecl) (decl : ClassDecl) (after : List ClassDecl) :
    ∃ tree, Meets ⟨before ++ decl :: after⟩ before decl after tree := by
  obtain ⟨tree, records, hreports, haccepts, _⟩ :=
    @exists_foldlM_accept {} List.nodup_nil (earlier before decl after)
  have htaken (hreserved : isReserved decl.name = false) :
      tree.contains decl.name = true ↔
        decl.name ∈ (earlier before decl after).map ClassDecl.name := by
    rw [← isSome_declared?_iff hreserved, contains, haccepts.lookup,
      show get? {} decl.name = none from rfl, Option.none_or, Option.isSome_map]
  have hnone : tree.rejection? decl = none ↔ ¬ Rejected before decl after := by
    rw [rejection?_eq_none_iff, Rejected, not_or, Bool.not_eq_true]
    apply and_congr_right
    intro hreserved
    rw [← contains_iff_mem_names, htaken hreserved]
  refine ⟨tree, exists_declarations_eq before decl after, ⟨records, hreports⟩, ?_, ?_⟩
  · intro hrejected
    obtain ⟨record, hrecord⟩ :=
      Option.ne_none_iff_exists'.mp (hnone.not.mpr (not_not.mpr hrejected))
    rw [accept, hrecord]
    exact ⟨record, .bind (.report record) (.pure tree)⟩
  · intro haccepted
    rw [accept, hnone.mpr haccepted]
    exact .pure _

/-- The class trees of a program: the one that is built, and those with the members that
have been collected, whether or not that was stopped. -/
inductive BuiltFor (program : Program) : Hierarchy → Prop
  | built {log : Log} {hierarchy : Hierarchy} {pass : Pass}
      (hbuild : (build program.withBuiltins).runOn log = (hierarchy, pass))
      (hpass : pass.stopped = false) : BuiltFor program hierarchy
  | collected {hierarchy : Hierarchy} (hbuilt : BuiltFor program hierarchy) (log : Log) :
      BuiltFor program ((hierarchy.collectMembers program.withBuiltins).runOn log).1

end Hierarchy

namespace Typing

open CheckM Hierarchy

variable {hierarchy : Hierarchy} {before after : List ClassDecl} {decl : ClassDecl}

/-! ## Which declarations are checked -/

theorem describes_ofDecl_iff {first : ClassDecl} (hname : first.name = decl.name) :
    (ClassInfo.ofDecl first).describes decl = true ↔
      first.file = decl.file ∧ first.line = decl.line := by
  simp only [ClassInfo.describes, ClassInfo.ofDecl, hname, BEq.rfl, Bool.true_and,
    Bool.and_eq_true, beq_iff_eq]
  exact and_congr eq_comm eq_comm

/-- Only the file and the line are compared with those of the declaration that the name
means. -/
theorem isChecked_of_builtFor {program : Program} (hbuilt : BuiltFor program hierarchy)
    (decl : ClassDecl) :
    isChecked hierarchy decl = true ↔
      decl.isBuiltin = false ∧ ∃ first, first ∈ declared? (declarations program.withBuiltins)
        decl.name ∧ (first.file = decl.file ∧ first.line = decl.line) := by
  induction hbuilt with
  | @built log hierarchy pass hbuild hpass =>
      obtain ⟨base, linked, accepting, linking, hall⟩ := exists_assembles program.withBuiltins
      obtain ⟨rfl, _⟩ := hall.builds.records_runOn hbuild hpass
      -- linking has only given the classes their parents, which are not compared
      have hknown : (hierarchy.get? decl.name).any (·.describes decl) =
          ((declared? (declarations program.withBuiltins) decl.name).map ClassInfo.ofDecl).any
            (·.describes decl) := by
        rw [← hall.map_get?, Option.any_map]
        rfl
      rw [isChecked, hknown, Option.any_map, Bool.and_eq_true, Bool.not_eq_true',
        Option.any_eq_true]
      refine and_congr_right fun _ => exists_congr fun first => and_congr_right fun hfirst => ?_
      exact describes_ofDecl_iff (name_of_declared? hfirst)
  | collected hbuilt log ih => rwa [runOn, isChecked_collectMembers]

theorem isChecked_iff_isTwin {program : Program} (hbuilt : BuiltFor program hierarchy)
    (hclasses : program.withBuiltins = ⟨before ++ decl :: after⟩)
    (hrejected : Rejected before decl after) :
    isChecked hierarchy decl = true ↔ IsTwin before decl after := by
  rw [isChecked_of_builtFor hbuilt, hclasses, hrejected.declared?, IsTwin]

theorem isChecked_of_not_rejected {program : Program} (hbuilt : BuiltFor program hierarchy)
    (hclasses : program.withBuiltins = ⟨before ++ decl :: after⟩)
    (haccepted : ¬ Rejected before decl after) (huser : decl.isBuiltin = false) :
    isChecked hierarchy decl = true := by
  rw [isChecked_of_builtFor hbuilt, hclasses, declared?_of_not_rejected haccepted]
  exact ⟨huser, decl, rfl, rfl, rfl⟩

/-! ## One declaration of a program -/

/-- The check of a program comes to a declaration after those before it. -/
theorem run_checkProgram_append (hierarchy : Hierarchy) (before : List ClassDecl)
    (decl : ClassDecl) (after : List ClassDecl) (pass : Pass) :
    (checkProgram hierarchy ⟨before ++ decl :: after⟩).run pass =
      let front := (before.mapM (checkClass hierarchy)).run pass
      let result := (checkClass hierarchy decl).run front.2
      let back := (after.mapM (checkClass hierarchy)).run result.2
      (⟨front.1 ++ result.1 :: back.1⟩, back.2) := by
  rw [checkProgram, List.mapM_append, List.mapM_cons]
  rfl

/-- A class is the same after its check but for the types. -/
theorem blank_checkClass (hierarchy : Hierarchy) (decl : ClassDecl) (pass : Pass) :
    ((checkClass hierarchy decl).run pass).1.blank = decl.blank := by
  have hrewrites : Rewrites (· = ·) False True decl (checkClass hierarchy decl)
      (checkClass hierarchy decl.blank) :=
    rewrites_checkClass Pass.pairing_eq (fun _ => rfl) rfl decl
  exact (hrewrites pass pass rfl fun _ => trivial).2.1.shape

theorem length_mapM_checkClass (hierarchy : Hierarchy) (decls : List ClassDecl) (pass : Pass) :
    ((decls.mapM (checkClass hierarchy)).run pass).1.length = decls.length := by
  induction decls generalizing pass with
  | nil => rfl
  | cons decl decls ih =>
      rw [List.mapM_cons]
      exact congrArg Nat.succ (ih _)

/-- The check passes over a declaration between others: the declaration is given back as it
was, and all else is as if it were not there. -/
def PassesOver (hierarchy : Hierarchy) (before : List ClassDecl) (decl : ClassDecl)
    (after : List ClassDecl) : Prop :=
  ∀ pass, ∃ front back final, front.length = before.length ∧
    (checkProgram hierarchy ⟨before ++ decl :: after⟩).run pass = (⟨front ++ decl :: back⟩, final) ∧
    (checkProgram hierarchy ⟨before ++ after⟩).run pass = (⟨front ++ back⟩, final)

/-- The check gives a declaration between others back with a type in each of its
expressions, unless it is stopped. -/
def WritesTypes (hierarchy : Hierarchy) (before : List ClassDecl) (decl : ClassDecl)
    (after : List ClassDecl) : Prop :=
  ∀ pass, ∃ front result back final, front.length = before.length ∧
    (checkProgram hierarchy ⟨before ++ decl :: after⟩).run pass =
      (⟨front ++ result :: back⟩, final) ∧
    result.blank = decl.blank ∧ (final.stopped = false → AllTyped result.nodes)

theorem passesOver_of_not_isChecked (hchecked : isChecked hierarchy decl = false) :
    PassesOver hierarchy before decl after := by
  intro pass
  let front := (before.mapM (checkClass hierarchy)).run pass
  let back := (after.mapM (checkClass hierarchy)).run front.2
  refine ⟨front.1, back.1, back.2, length_mapM_checkClass hierarchy before pass, ?_, ?_⟩
  · rw [run_checkProgram_append, checkClass, hchecked]
    rfl
  · rw [checkProgram, List.mapM_append]
    rfl

theorem writesTypes_of_isChecked (hchecked : isChecked hierarchy decl = true) :
    WritesTypes hierarchy before decl after := by
  intro pass
  refine ⟨_, _, _, _, length_mapM_checkClass hierarchy before pass,
    run_checkProgram_append hierarchy before decl after pass, blank_checkClass hierarchy decl _, ?_⟩
  intro hrunning
  -- a pass that runs after the last class was running after this one
  obtain ⟨_, records, hyields, _⟩ := Agree.mapM (agree_checkClass (.refl hierarchy)) after
  rw [hyields.pass_eq] at hrunning
  exact (completes_checkClass hierarchy decl _ (Pass.running_of_reportAll hrunning)).2 hchecked

/-- The check of a program against one of its class trees, as it is for a declaration
between others. -/
structure ChecksAccepted (program : Program) (hierarchy : Hierarchy) (before : List ClassDecl)
    (decl : ClassDecl) (after : List ClassDecl) : Prop where
  met : ∃ tree, Meets program.withBuiltins before decl after tree
  rejected : Rejected before decl after → ¬ IsTwin before decl after →
    PassesOver hierarchy before decl after
  twin : IsTwin before decl after →
    Rejected before decl after ∧ WritesTypes hierarchy before decl after
  accepted : ¬ Rejected before decl after → decl.isBuiltin = false →
    WritesTypes hierarchy before decl after
  builtin : decl.isBuiltin = true → PassesOver hierarchy before decl after

/-- Of the declarations outside the built-in file, those are checked that were accepted and
the twins of these. -/
theorem checkProgram_checksAccepted {program : Program} (hbuilt : BuiltFor program hierarchy)
    (hclasses : program.withBuiltins.classes = before ++ decl :: after) :
    ChecksAccepted program hierarchy before decl after := by
  have hprogram : program.withBuiltins = ⟨before ++ decl :: after⟩ := congrArg Program.mk hclasses
  constructor
  · rw [hprogram]
    exact exists_meets before decl after
  · intro hrejected hother
    rw [← isChecked_iff_isTwin hbuilt hprogram hrejected, Bool.not_eq_true] at hother
    exact passesOver_of_not_isChecked hother
  · intro htwin
    have hchecked := (isChecked_iff_isTwin hbuilt hprogram htwin.rejected).mpr htwin
    exact ⟨htwin.rejected, writesTypes_of_isChecked hchecked⟩
  · intro haccepted huser
    exact writesTypes_of_isChecked (isChecked_of_not_rejected hbuilt hprogram haccepted huser)
  · intro hbuiltin
    apply passesOver_of_not_isChecked
    rw [isChecked, hbuiltin, Bool.not_true, Bool.false_and]

/-- A class with a field that has a value of another type. -/
def unsuitedClass (line : Nat) : ClassDecl where
  name := "A"
  file := "a"
  line
  members := [.field ⟨"x", .int, some (.unchecked line (.bool true)), line⟩]

/-- Two classes of one name in one line and a third in the next. -/
def twinsProgram : Program where
  classes := [{ name := "A", file := "a", line := 1 }, unsuitedClass 1, unsuitedClass 2]

theorem twinsProgram_checksAccepted :
    ∃ hierarchy pass, (build twinsProgram.withBuiltins).runOn { limit := 9 } = (hierarchy, pass) ∧
      pass.stopped = false ∧ pass.log.count = 2 ∧
      Rejected (twinsProgram.classes.take 2) (unsuitedClass 2) Builtin.classes ∧
      ¬ IsTwin (twinsProgram.classes.take 2) (unsuitedClass 2) Builtin.classes ∧
      ChecksAccepted twinsProgram hierarchy (twinsProgram.classes.take 2) (unsuitedClass 2)
        Builtin.classes := by
  refine ⟨_, _, rfl, ?_, ?_, ?_, ?_, checkProgram_checksAccepted (.built rfl ?_) rfl⟩
  · decide
  · decide
  · decide
  · decide
  · decide

/-- The second class of the program is rejected, and yet its expression gets a type and is
reported. -/
theorem twinsProgram_twin_checked :
    Rejected (twinsProgram.classes.take 1) (unsuitedClass 1)
      (unsuitedClass 2 :: Builtin.classes) ∧
    ∃ hierarchy pass, (build twinsProgram.withBuiltins).runOn { limit := 9 } = (hierarchy, pass) ∧
      pass.stopped = false ∧
      ((checkProgram hierarchy twinsProgram.withBuiltins).runOn { limit := 9 }).2.log.records.map
        Diagnostic.line = [some 1] ∧
      ((checkProgram hierarchy twinsProgram.withBuiltins).runOn { limit := 9 }).1.annotations =
        [some .boolean, none] ∧
      twinsProgram.withBuiltins.annotations = [none, none] := by
  refine ⟨?_, _, _, rfl, ?_, ?_, ?_, ?_⟩
  · decide
  · decide
  · decide +kernel
  · decide +kernel
  · decide +kernel

end Typing

end ClassLang
