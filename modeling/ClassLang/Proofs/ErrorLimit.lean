/-
# The limit on errors

A check with a smaller limit is the beginning of a check with a larger one: its records
are the first of the others, and the types that it writes are written by the other too.
If it is not stopped, both checks come to the same. Which types a check writes is seen
on the blank of a program, where there are no others.
-/

import ClassLang.Proofs.Phases
import ClassLang.Proofs.Typing.Tracing

namespace ClassLang

open CheckM

/-! ## Blanks in the first phases -/

namespace Hierarchy

variable {hierarchy : Hierarchy}

/-- The class tree does not depend on the types of expressions. -/
theorem build_blank (program : Program) : build program.blank = build program := by
  have hdeclarations : declarations program.blank = (declarations program).map .blank := by
    simp only [declarations, Program.blank, List.filter_map, List.map_append]
    rfl
  have haccept : (fun hierarchy decl => accept hierarchy (ClassDecl.blank decl)) = accept := rfl
  rw [build, hdeclarations, List.foldlM_map, haccept, build]

theorem declaration?_blank (program : Program) (info : ClassInfo) :
    declaration? program.blank info = (declaration? program info).map .blank := by
  rw [declaration?, Program.blank, List.find?_map]
  rfl

theorem fields_blank (decl : ClassDecl) : decl.blank.fields = decl.fields.map .blank := by
  rw [ClassDecl.fields, ClassDecl.blank, List.filterMap_map, ClassDecl.fields, List.map_filterMap]
  congr
  funext member
  cases member <;> rfl

theorem methods_blank (decl : ClassDecl) : decl.blank.methods = decl.methods.map .blank := by
  rw [ClassDecl.methods, ClassDecl.blank, List.filterMap_map, ClassDecl.methods,
    List.map_filterMap]
  congr
  funext member
  cases member <;> rfl

/-- The tables of the classes do not depend on the types of expressions. -/
theorem collectMembers_blank (program : Program) :
    collectMembers program.blank = collectMembers program := by
  have hcollect : collectClass program.blank = collectClass program := by
    funext hierarchy name
    have hmakes : makeTables program.blank hierarchy = makeTables program hierarchy := by
      funext info
      rw [makeTables, declaration?_blank, makeTables]
      cases declaration? program info with
      | none => rfl
      | some decl =>
          simp only [Option.map_some, declareMembers, fields_blank, methods_blank,
            List.foldlM_map]
          rfl
    rw [collectClass, hmakes, collectClass]
  funext hierarchy
  rw [collectMembers, hcollect, collectMembers]

end Hierarchy

namespace Typing

theorem isChecked_withTables (hierarchy : Hierarchy) (name : String)
    (tables : Hierarchy.Tables) :
    isChecked (hierarchy.modify name fun info => Hierarchy.withTables info tables) =
      isChecked hierarchy := by
  funext decl
  rw [isChecked, isChecked, Hierarchy.get?_withTables, Option.any_map]
  cases hierarchy.get? decl.name with
  | none => rfl
  | some info =>
      simp only [Option.any_some]
      split <;> rfl

/-- Which declarations are checked does not depend on the tables, not even on those that
a stopped pass leaves unfinished. -/
theorem isChecked_collectClass (program : Program) (hierarchy : Hierarchy) (name : String)
    (pass : Pass) :
    isChecked ((hierarchy.collectClass program name).run pass).1 = isChecked hierarchy := by
  unfold Hierarchy.collectClass
  cases hierarchy.get? name with
  | none => rfl
  | some info =>
      show isChecked (if ((Hierarchy.makeTables program hierarchy info).run pass).2.stopped = true
        then hierarchy else _) = _
      split
      · rfl
      · exact isChecked_withTables hierarchy name _

theorem isChecked_collectMembers (program : Program) (hierarchy : Hierarchy) (pass : Pass) :
    isChecked ((hierarchy.collectMembers program).run pass).1 = isChecked hierarchy := by
  rw [Hierarchy.collectMembers]
  generalize hierarchy.rootFirst = names
  induction names generalizing hierarchy pass with
  | nil => rfl
  | cons name names ih =>
      rw [List.foldlM_cons]
      exact (ih _ _).trans (isChecked_collectClass program hierarchy name pass)

end Typing

namespace Analysis

variable {paired : Pass → Pass → Prop} {apart known : Prop} {hierarchy other linked : Hierarchy}

/-! ## Types written by a check -/

theorem follows_checkBodies (hpairing : Pass.Pairing paired apart) (options : Options)
    (hsame : known → hierarchy = other)
    (hchecked : Typing.isChecked hierarchy = Typing.isChecked other) (program : Program) :
    Follows paired known (fun result later => Traced apart program result.2 later.2)
      (fun result later => result.1 = later.1) (checkBodies options hierarchy program)
      (checkBodies options other program.blank) := by
  have htypes {known : Prop} (hsame : known → hierarchy = other) :
      Follows paired known (fun result later => Traced apart program result.2 later.2)
        (fun result later => result.1 = later.1)
        (Typing.checkProgram hierarchy program >>= fun program => pure (hierarchy, program))
        (Typing.checkProgram other program.blank >>= fun program => pure (other, program)) :=
    (Typing.rewrites_checkProgram hpairing hsame hchecked program).bind fun hprogram =>
      .pure hprogram hsame
  unfold checkBodies
  cases options.requireMain with
  | false => exact htypes hsame
  | true =>
      exact .bind_rule (.rule hpairing (agree_checkEntry (.refl _) _ _)
        (agree_checkEntry (.refl _) _ _) fun h => by rw [hsame h]) (htypes fun h => hsame h.1)

theorem follows_checkMembers (hpairing : Pass.Pairing paired apart) (options : Options)
    (htree : linked.IsTree) (program : Program) :
    Follows paired True (fun result later => Traced apart program result.2 later.2)
      (fun result later => result.1 = later.1) (checkMembers options linked program)
      (checkMembers options linked program.blank) := by
  obtain ⟨collected, records, hcollect, _⟩ := Hierarchy.exists_collectMembers htree program
  have hrule : Follows paired True (fun _ _ => True) (· = ·) (linked.collectMembers program)
      (linked.collectMembers program) :=
    .rule hpairing ⟨_, _, hcollect, hcollect⟩ ⟨_, _, hcollect, hcollect⟩ fun _ => rfl
  have hcollects : Follows paired True
      (fun first second => Typing.isChecked first = Typing.isChecked second) (· = ·)
      (linked.collectMembers program) (linked.collectMembers program) := by
    apply hrule.with_always
    intro first second
    rw [Typing.isChecked_collectMembers, Typing.isChecked_collectMembers]
  rw [checkMembers, checkMembers, Hierarchy.collectMembers_blank]
  apply hcollects.bind
  intro first second hchecked
  exact follows_checkBodies hpairing options And.right hchecked program

/-- A check of a program, and a check of its blank with a paired limit. -/
structure Compared (paired : Pass → Pass → Prop) (apart : Prop) (program : Program)
    (first second : Outcome) (pass later : Pass) (value other : Hierarchy × Program) : Prop where
  first_eq : first = conclude pass value
  second_eq : second = conclude later other
  passes : paired pass later
  traced : Traced apart program value.2 other.2
  hierarchy : pass.stopped = false → value.1 = other.1

theorem exists_compared (hpairing : Pass.Pairing paired apart) (options : Options)
    (program : Program) {small large : Nat}
    (hlimits : paired (Pass.fresh small) (Pass.fresh large)) :
    ∃ pass later value other, Compared paired apart program.withBuiltins
      (check { options with maxErrors := small } program)
      (check { options with maxErrors := large } program.blank) pass later value other := by
  obtain ⟨base, linked, accepting, linking, hall⟩ :=
    Hierarchy.exists_assembles program.withBuiltins
  have hbuild : Reports (Hierarchy.build program.blank.withBuiltins) linked
      (accepting ++ linking) := by
    rw [program.withBuiltins_blank, Hierarchy.build_blank]
    exact hall.builds
  rw [check_of_reports_build { options with maxErrors := small } hall.builds,
    check_of_reports_build { options with maxErrors := large } hbuild, program.withBuiltins_blank]
  by_cases hquiet : accepting ++ linking = []
  · rw [if_pos hquiet, if_pos hquiet]
    obtain ⟨rfl, rfl⟩ := List.append_eq_nil_iff.mp hquiet
    have htree := hall.isTree
    have hfollows := follows_checkMembers hpairing options htree program.withBuiltins
    obtain ⟨hpasses, htraced, hrunning⟩ := hfollows _ _ hlimits fun _ => trivial
    exact ⟨_, _, _, _, finish_eq_conclude_run _ _ _, finish_eq_conclude_run _ _ _, hpasses,
      htraced, fun hrun => (hrunning hrun).2⟩
  · rw [if_neg hquiet, if_neg hquiet]
    refine ⟨_, _, _, _, rfl, rfl, hpairing.reportAll hlimits rfl _, ⟨rfl, ?_⟩, fun _ => rfl⟩
    show Marked apart program.withBuiltins.annotations program.withBuiltins.annotations
      program.withBuiltins.blank.annotations
    rw [Program.annotations_blank]
    exact .kept _

/-- A check gives the program back with types written into it, those that another check
with a paired limit writes into the blank. -/
theorem traced_check (hpairing : Pass.Pairing paired apart) (options : Options) (program : Program)
    {small large : Nat} (hlimits : paired (Pass.fresh small) (Pass.fresh large)) :
    Traced apart program.withBuiltins (check { options with maxErrors := small } program).program
      (check { options with maxErrors := large } program.blank).program := by
  obtain ⟨_, _, _, _, hcompared⟩ := exists_compared hpairing options program hlimits
  rw [hcompared.first_eq, hcompared.second_eq]
  exact hcompared.traced

/-- The types that a check writes, place by place. -/
def written (options : Options) (program : Program) : List (Option Ty) :=
  (check options program.blank).program.annotations

/-- A check writes types into a program and leaves all else as it was. -/
structure Writes (options : Options) (program : Program) : Prop where
  shape : (check options program).program.blank = program.withBuiltins.blank
  annotations : (check options program).program.annotations =
    List.zipWith Option.or (written options program) program.withBuiltins.annotations

theorem check_writes (options : Options) (program : Program) : Writes options program := by
  have htraced := traced_check Pass.pairing_eq options program
    (rfl : Pass.fresh options.maxErrors = Pass.fresh options.maxErrors)
  exact ⟨htraced.shape, htraced.marks.eq_zipWith⟩

/-- What is written with a smaller limit is written with a larger one too. -/
theorem getElem?_written {small large : Nat} (hle : small ≤ large) (options : Options)
    (program : Program) {place : Nat} {type : Ty}
    (hwritten : (written { options with maxErrors := small } program)[place]? = some (some type)) :
    (written { options with maxErrors := large } program)[place]? = some (some type) := by
  have htraced := traced_check Pass.pairing_behind options program.blank (Pass.behind_fresh hle)
  rw [program.blank_blank, program.withBuiltins_blank] at htraced
  have hmarks := htraced.marks
  rw [show Annotated.annotations program.withBuiltins.blank = _ from
    Program.annotations_blank _] at hmarks
  exact hmarks.getElem?_of_emptied hwritten

/-! ## Records within the limit -/

/-- A check with room for all records comes to all there is to find. -/
theorem Finds.check_eq {options : Options} {program : Program} {complete : Hierarchy × Program}
    {records : List Diagnostic} (hfinds : Finds options program complete records) {limit : Nat}
    (hroom : records.length ≤ limit) :
    check { options with maxErrors := limit } program =
      finished { options with maxErrors := limit } complete records := by
  obtain ⟨value, hcheck, hcomplete⟩ := hfinds limit
  have hpass := Pass.reportAll_fresh_of_length_le hroom
  rw [hpass] at hcheck hcomplete
  rw [hcheck, hcomplete rfl]
  rfl

/-- A check without room for all records is stopped. -/
theorem Finds.result_of_lt {options : Options} {program : Program}
    {complete : Hierarchy × Program} {records : List Diagnostic}
    (hfinds : Finds options program complete records) {limit : Nat}
    (hover : limit < records.length) :
    (check { options with maxErrors := limit } program).result = .error (.tooMany limit) := by
  obtain ⟨value, hcheck, _⟩ := hfinds limit
  have hlimit := Pass.limit_reportAll (Pass.fresh limit) records
  have hcount : limit < ((Pass.fresh limit).reportAll records).log.count := by
    rw [Log.count, Pass.records_reportAll_fresh, List.length_take]
    omega
  rw [hcheck, result_conclude (Pass.isOver_reportAll_fresh limit records), hlimit]
  exact if_pos hcount

/-- What a check with a smaller limit has in common with a check with a larger one. -/
structure Truncates (small large : Options) (program : Program) : Prop where
  records : (check small program).log.records =
    (check large program).log.records.take (small.maxErrors + 1)
  complete : (check small program).result ≠ .error (.tooMany small.maxErrors) →
    (check small program).result = (check large program).result ∧
      (check small program).program = (check large program).program
  /-- What is written is told for both checks by the types in a blank. -/
  writes : Writes small program ∧ Writes large program
  written : ∀ (place : Nat) (type : Ty), (written small program)[place]? = some (some type) →
    (written large program)[place]? = some (some type)

/-- The limit on errors cuts a check short and changes nothing else. -/
theorem check_truncates {small large : Nat} (hle : small ≤ large) (options : Options)
    (program : Program) :
    Truncates { options with maxErrors := small } { options with maxErrors := large } program := by
  obtain ⟨complete, records, hfinds⟩ := exists_finds options program
  have hrecords (limit : Nat) : (check { options with maxErrors := limit } program).log.records =
      records.take (limit + 1) := by
    obtain ⟨value, hcheck, _⟩ := hfinds limit
    rw [hcheck]
    exact Pass.records_reportAll_fresh limit records
  refine ⟨?_, ?_, ⟨check_writes _ program, check_writes _ program⟩, ?_⟩
  · rw [hrecords, hrecords, List.take_take, Nat.min_eq_left (Nat.succ_le_succ hle)]
  · intro hresult
    have hroom : records.length ≤ small := by
      by_contra hover
      exact hresult (hfinds.result_of_lt (Nat.lt_of_not_le hover))
    rw [hfinds.check_eq hroom, hfinds.check_eq (hroom.trans hle)]
    exact ⟨rfl, rfl⟩
  · intro place type hwritten
    exact getElem?_written hle options program hwritten

/-- A program that uses three names without a meaning. -/
def carelessProgram : Program where
  classes :=
    [{ name := "Main", file := "main", line := 1, members :=
        [.method ⟨"main", .void, [],
          [.expr (.unchecked 2 (.int 1)), .expr (.unchecked 3 (.var "a")),
            .expr (.unchecked 4 (.var "b")), .expr (.unchecked 5 (.int 2)),
            .expr (.unchecked 6 (.unary .neg (.unchecked 6 (.var "c"))))], 1⟩] }]

theorem carelessProgram_truncates :
    ((check { maxErrors := 1 } carelessProgram).result = .error (.tooMany 1) ∧
      written { maxErrors := 1 } carelessProgram =
        [some .int, some .error, none, none, none, none]) ∧
    ((check { maxErrors := 9 } carelessProgram).log.count = 3 ∧
      written { maxErrors := 9 } carelessProgram =
        [some .int, some .error, some .error, some .int, some .int, some .error]) ∧
    Truncates { maxErrors := 1 } { maxErrors := 9 } carelessProgram := by
  refine ⟨?_, ?_, check_truncates (by decide) {} carelessProgram⟩
  · decide +kernel
  · decide +kernel

end Analysis

end ClassLang
