/-
# Checking a program again

A check writes types into a program and never reads one. What it finds is told by the
blank alone, so it finds the same in the program that it has written into, however far it
came before it failed or was stopped. Then it also writes the same types once more, and
since all else is kept, the program is left as it is.
-/

import ClassLang.Proofs.ErrorLimit
import ClassLang.Proofs.Source.Filling

namespace ClassLang

open CheckM

/-! ## Built-in classes are added once -/

theorem Program.any_isBuiltin_withBuiltins (program : Program) :
    program.withBuiltins.classes.any ClassDecl.isBuiltin = true := by
  unfold Program.withBuiltins
  split
  next hbuiltin => exact hbuiltin
  next =>
    rw [List.any_append, Bool.or_eq_true]
    exact .inr (by decide)

theorem Program.withBuiltins_withBuiltins (program : Program) :
    program.withBuiltins.withBuiltins = program.withBuiltins := by
  conv_lhs => rw [Program.withBuiltins, if_pos program.any_isBuiltin_withBuiltins]

/-- The built-in classes hold no expressions, so no types either. -/
theorem Builtin.eq_classes {classes : List ClassDecl}
    (hblank : classes.map ClassDecl.blank = Builtin.classes.map ClassDecl.blank) :
    classes = Builtin.classes := by
  have hblank : Program.blank ⟨classes⟩ = Program.blank ⟨Builtin.classes⟩ :=
    congrArg Program.mk hblank
  have hnone : Program.annotations ⟨classes⟩ = [] := by
    have hempty := Program.annotations_blank ⟨classes⟩
    rw [hblank] at hempty
    exact List.map_eq_nil_iff.mp hempty.symm
  exact congrArg Program.classes (Program.eq_of_blank_of_annotations hblank hnone)

namespace Analysis

variable {options : Options} {program other : Program}

theorem check_withBuiltins (options : Options) (program : Program) :
    check options program.withBuiltins = check options program := by
  rw [check, run, program.withBuiltins_withBuiltins, check, run]

/-! ## Types are not read -/

theorem running_of_phaseResult_ok {pass : Pass} (hok : phaseResult pass = .ok ()) :
    pass.stopped = false := by
  cases hstopped : pass.stopped with
  | false => rfl
  | true =>
      rw [phaseResult, Pass.outcome, hstopped] at hok
      cases hok

/-- The result of a stopped pass does not depend on the hierarchy. -/
theorem result_conclude_congr {pass : Pass} {value later : Hierarchy × Program}
    (hsame : pass.stopped = false → value.1 = later.1) :
    (conclude pass value).result = (conclude pass later).result := by
  rw [conclude, conclude]
  cases hphase : phaseResult pass with
  | error failure => rfl
  | ok => rw [hsame (running_of_phaseResult_ok hphase)]

/-- A check finds the same in a program as in its blank. -/
theorem check_blank (options : Options) (program : Program) :
    (check options program).result = (check options program.blank).result ∧
      (check options program).log = (check options program.blank).log := by
  obtain ⟨pass, later, value, other, hcompared⟩ := exists_compared Pass.pairing_eq options program
    (rfl : Pass.fresh options.maxErrors = Pass.fresh options.maxErrors)
  have hcheck : check options program = conclude pass value := hcompared.first_eq
  have hblank : check options program.blank = conclude pass other := by
    rw [hcompared.passes]
    exact hcompared.second_eq
  rw [hcheck, hblank]
  exact ⟨result_conclude_congr hcompared.hierarchy, rfl⟩

theorem check_congr_of_blank (options : Options) (hblank : other.blank = program.blank) :
    (check options other).result = (check options program).result ∧
      (check options other).log = (check options program).log := by
  obtain ⟨hresult, hlog⟩ := check_blank options program
  obtain ⟨hotherResult, hotherLog⟩ := check_blank options other
  rw [hotherResult, hotherLog, hblank, hresult, hlog]
  exact ⟨rfl, rfl⟩

/-! ## Checked programs -/

/-- Types that have been written are written over themselves. -/
theorem zipWith_or_self (types old : List (Option Ty)) :
    List.zipWith Option.or types (List.zipWith Option.or types old) =
      List.zipWith Option.or types old := by
  induction types generalizing old with
  | nil => rfl
  | cons type types ih =>
      cases old with
      | nil => rfl
      | cons first old =>
          rw [List.zipWith_cons_cons, List.zipWith_cons_cons, ih, ← Option.or_assoc,
            Option.or_self]

theorem written_checked (options : Options) (program : Program) :
    written options (check options program).program = written options program := by
  rw [written, (check_writes options program).shape, ← program.withBuiltins_blank,
    check_withBuiltins, written]

theorem withBuiltins_checked (options : Options) (program : Program) :
    (check options program).program.withBuiltins = (check options program).program := by
  have hany : (check options program).program.classes.any ClassDecl.isBuiltin = true := by
    have hshape := congrArg (fun program : Program => program.classes.any ClassDecl.isBuiltin)
      (check_writes options program).shape
    simp only [Program.blank, List.any_map] at hshape
    exact hshape.trans program.any_isBuiltin_withBuiltins
  rw [Program.withBuiltins, if_pos hany]

/-- A second check leaves the program as the first one left it. -/
theorem program_check_checked (options : Options) (program : Program) :
    (check options (check options program).program).program =
      (check options program).program := by
  have hagain := check_writes options (check options program).program
  apply Program.eq_of_blank_of_annotations
  · rw [hagain.shape, withBuiltins_checked]
  · rw [hagain.annotations, written_checked, withBuiltins_checked,
      (check_writes options program).annotations, zipWith_or_self]

/-- How a check treats the types in a program. -/
structure WritesOnly (options : Options) (program : Program) : Prop where
  /-- The classes of the program come back with other types at most, and the built-in ones
  come after them, unless the program has classes from the built-in file. -/
  classes : ∃ checked,
    (check options program).program.classes =
      checked ++ (if program.classes.any ClassDecl.isBuiltin then [] else Builtin.classes) ∧
    checked.map ClassDecl.blank = program.classes.map ClassDecl.blank
  /-- Whatever types there are at the start, the same is found. -/
  unread : ∀ other : Program, other.blank = program.blank →
    (check options other).result = (check options program).result ∧
      (check options other).log = (check options program).log
  /-- A second check comes to the same in everything, down to the types. -/
  again : check options (check options program).program = check options program

theorem exists_checked (options : Options) (program : Program) :
    ∃ checked,
      (check options program).program.classes =
        checked ++ (if program.classes.any ClassDecl.isBuiltin then [] else Builtin.classes) ∧
      checked.map ClassDecl.blank = program.classes.map ClassDecl.blank := by
  have hshape := congrArg Program.classes (check_writes options program).shape
  rw [Program.withBuiltins] at hshape
  split at hshape
  next hbuiltin =>
    rw [if_pos hbuiltin]
    simp only [Program.blank] at hshape
    exact ⟨_, (List.append_nil _).symm, hshape⟩
  next hnone =>
    rw [if_neg hnone]
    simp only [Program.blank, List.map_append] at hshape
    obtain ⟨checked, added, hclasses, hchecked, hadded⟩ := List.map_eq_append_iff.mp hshape
    rw [Builtin.eq_classes hadded] at hclasses
    exact ⟨checked, hclasses, hchecked⟩

/-- A check writes types and reads none, and a second check changes nothing, also after a
first one that failed or was stopped. -/
theorem check_writesOnly (options : Options) (program : Program) : WritesOnly options program where
  classes := exists_checked options program
  unread _ hblank := check_congr_of_blank options hblank
  again := by
    have hshape := (check_writes options program).shape
    obtain ⟨hresult, hlog⟩ := check_congr_of_blank options hshape
    rw [check_withBuiltins] at hresult hlog
    have hprogram := program_check_checked options program
    -- from here on the two runs must not be opened
    generalize check options (check options program).program = second at hresult hlog hprogram
    generalize check options program = first at hresult hlog hprogram
    cases second
    cases first
    cases hresult
    cases hlog
    cases hprogram
    rfl

end Analysis

end ClassLang
