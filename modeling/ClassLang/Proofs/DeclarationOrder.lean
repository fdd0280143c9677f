/-
# The order of declarations

The whole check of a program comes to the same whatever the order of its classes: the
same is reported, every expression gets the same type, and the same classes are found.
Only lists show the order, in reports and in hierarchies. Each phase has its part in
this, the tree, the tables and the types; here they are put together.
-/

import ClassLang.Analysis
import ClassLang.Proofs.Hierarchy.Tables
import ClassLang.Proofs.Typing.Agreement

namespace ClassLang.Analysis

open CheckM

variable {program shuffled : Program} {linked otherLinked collected otherCollected : Hierarchy}
  {options : Options} {records : List Diagnostic}

/-! ## The second phase -/

theorem agree_checkEntry (hsame : collected.Reordered otherCollected) (className method : String) :
    Agree (collected.checkEntry className method)
      (otherCollected.checkEntry className method) := by
  simp only [Hierarchy.checkEntry, Hierarchy.entryClass?, hsame.get?]
  cases (collected.get? className).filter fun info => !info.builtin with
  | none => exact .report _
  | some info =>
      cases hmethod : info.methods.lookup method with
      | none => simpa only [hmethod] using .report _
      | some sig => simpa only [hmethod] using .require _ _

theorem yields_checkProgram {hierarchy : Hierarchy} {annotate : ClassDecl → ClassDecl}
    {typing : ClassDecl → List Diagnostic}
    (hclass : ∀ decl, Yields (Typing.checkClass hierarchy decl) (annotate decl) (typing decl))
    (program : Program) :
    Yields (Typing.checkProgram hierarchy program >>= fun program => pure (hierarchy, program))
      (hierarchy, ⟨program.classes.map annotate⟩) (program.classes.flatMap typing) := by
  have hclasses := (Yields.mapM hclass program.classes).bind
    (Reports.pure (Program.mk (program.classes.map annotate))).yields fun _ => .pure _
  have hpair := hclasses.bind (Reports.pure (hierarchy, _)).yields fun _ => .pure _
  rwa [List.append_nil, List.append_nil] at hpair

/-- The bodies of two orders of the same classes: what becomes of a declaration and what
is reported for it does not depend on the other declarations of the program. -/
theorem exists_checkBodies (options : Options) (hsame : collected.Reordered otherCollected) :
    ∃ annotate entry typing, ∀ program,
      Yields (checkBodies options collected program)
        (collected, ⟨program.classes.map annotate⟩) (entry ++ program.classes.flatMap typing) ∧
      Yields (checkBodies options otherCollected program)
        (otherCollected, ⟨program.classes.map annotate⟩)
        (entry ++ program.classes.flatMap typing) := by
  choose annotate typing hclass hotherClass using
    fun decl => Typing.agree_checkClass hsame decl
  have htypes := yields_checkProgram hclass
  have hotherTypes := yields_checkProgram hotherClass
  unfold checkBodies
  cases options.requireMain with
  | false => exact ⟨annotate, [], typing, fun program => ⟨htypes program, hotherTypes program⟩⟩
  | true =>
      obtain ⟨_, entry, hentry, hotherEntry⟩ :=
        agree_checkEntry hsame options.mainClass options.mainMethod
      refine ⟨annotate, entry, typing, fun program => ⟨?_, ?_⟩⟩
      · exact hentry.bind (htypes program) fun _ => (htypes program).reporting
      · exact hotherEntry.bind (hotherTypes program) fun _ => (hotherTypes program).reporting

theorem reporting_checkBodies (options : Options) (hierarchy : Hierarchy) (program : Program) :
    Reporting (checkBodies options hierarchy program) := by
  obtain ⟨_, _, _, hbodies⟩ := exists_checkBodies options (.refl hierarchy)
  exact (hbodies program).1.reporting

/-- The members of two orders of the same classes: one function tells what becomes of
each declaration in both. -/
theorem exists_checkMembers_shuffled (options : Options) (htree : linked.IsTree)
    (hlinked : linked.Reordered otherLinked) (hperm : shuffled.classes.Perm program.classes)
    (hnodup : (program.classes.map ClassDecl.name).Nodup) :
    ∃ collected otherCollected annotate records otherRecords,
      Yields (checkMembers options linked program)
        (collected, ⟨program.classes.map annotate⟩) records ∧
      Yields (checkMembers options otherLinked shuffled)
        (otherCollected, ⟨shuffled.classes.map annotate⟩) otherRecords ∧
      collected.IsTree ∧ collected.Reordered otherCollected ∧ otherRecords.Perm records := by
  have hdecls := Hierarchy.declaration?_perm hperm hnodup
  obtain ⟨collected, tables, otherCollected, otherTables, hcollect, hotherCollect, htree,
    hsame, htables⟩ := Hierarchy.exists_collectMembers_shuffled htree hlinked hdecls
  obtain ⟨annotate, entry, typing, hbodies⟩ := exists_checkBodies options hsame
  refine ⟨collected, otherCollected, annotate, _, _,
    hcollect.bind (hbodies program).1 fun _ => reporting_checkBodies options _ program,
    hotherCollect.bind (hbodies shuffled).2 fun _ => reporting_checkBodies options _ shuffled,
    htree, hsame, ?_⟩
  exact htables.append ((hperm.flatMap_right typing).append_left entry)

/-! ## Checks within the limit -/

/-- The outcome of a check with records on the class tree. -/
def rejected (options : Options) (program : Program) (records : List Diagnostic) : Outcome :=
  let log : Log := { limit := options.maxErrors, records }
  { result := .error (.rejected log.count log.report), program, log }

/-- The outcome of a check with these records on members, entry and types. -/
def finished (options : Options) (value : Hierarchy × Program) (records : List Diagnostic) :
    Outcome :=
  let log : Log := { limit := options.maxErrors, records }
  { result := log.verdict.map fun _ => value.1, program := value.2, log }

theorem records_of_phaseResult_ok {pass : Pass} (hpass : phaseResult pass = .ok ()) :
    pass.log.records = [] := by
  have hverdict : pass.log.verdict = .ok () := by
    unfold phaseResult Pass.outcome at hpass
    cases hstopped : pass.stopped with
    | true =>
        rw [hstopped] at hpass
        cases hpass
    | false =>
        rw [hstopped] at hpass
        exact hpass
  simpa [Log.verdict, Log.hasErrors] using hverdict

/-- The first phase of a check within the limit is not stopped. -/
theorem runOn_build (hbuild : Yields (Hierarchy.build program.withBuiltins) linked records)
    (hcount : (check options program).log.count ≤ options.maxErrors) :
    (Hierarchy.build program.withBuiltins).runOn { limit := options.maxErrors } =
      (linked, { log := { limit := options.maxErrors, records } }) := by
  apply hbuild.runOn_eq rfl
  simp only [check, run] at hcount
  cases hphase : phaseResult
      ((Hierarchy.build program.withBuiltins).runOn { limit := options.maxErrors }).2 with
  | error failure => simpa only [hphase] using hcount
  | ok => simp [Log.count, records_of_phaseResult_ok hphase]

theorem check_of_runOn_build
    (hrun : (Hierarchy.build program.withBuiltins).runOn { limit := options.maxErrors } =
      (linked, { log := { limit := options.maxErrors, records } })) :
    check options program =
      if records = [] then
        finish options { limit := options.maxErrors } linked program.withBuiltins
      else rejected options program.withBuiltins records := by
  simp only [check, run, hrun]
  cases records with
  | nil => rfl
  | cons record records => rfl

/-- A second phase within the limit is not stopped. -/
theorem finish_eq {value : Hierarchy × Program}
    (hmembers : Yields (checkMembers options linked program) value records)
    (hcount : (finish options { limit := options.maxErrors } linked program).log.count ≤
      options.maxErrors) :
    finish options { limit := options.maxErrors } linked program =
      finished options value records := by
  have hrun := hmembers.runOn_eq rfl hcount
  unfold finish
  rw [hrun]
  rfl

/-! ## The same outcome -/

/-- The same classes under the same names, with the same members and descendants. -/
structure SameTree (hierarchy other : Hierarchy) : Prop where
  /-- The parent, the flags and the tables of a class are all part of what is found. -/
  classes : ∀ name, other.get? name = hierarchy.get? name
  parents : ∀ name, other.parent? name = hierarchy.parent? name
  descendants : ∀ name, other.descendantCount name = hierarchy.descendantCount name
  fields : ∀ className name, other.field? className name = hierarchy.field? className name
  methods : ∀ className name, other.method? className name = hierarchy.method? className name

theorem sameTree_of_reordered {hierarchy other : Hierarchy} (hsame : hierarchy.Reordered other)
    (htree : hierarchy.IsTree) : SameTree hierarchy other where
  classes := congrFun hsame.get?
  parents := congrFun hsame.parent?
  descendants := congrFun (hsame.descendantCount htree)
  fields className := congrFun (congrFun hsame.field? className)
  methods className := congrFun (congrFun hsame.method? className)

/-- Both checks find the same classes, or both reject the program with the same number of
records. -/
inductive SameResult : Except Failure Hierarchy → Except Failure Hierarchy → Prop where
  | ok {hierarchy other : Hierarchy} (tree : SameTree hierarchy other) :
    SameResult (.ok hierarchy) (.ok other)
  | rejected (count : Nat) (report otherReport : String) :
    SameResult (.error (.rejected count report)) (.error (.rejected count otherReport))

/-- What two checks leave behind is the same but for the order. -/
structure SameOutcome (program shuffled : Program) (outcome other : Outcome) : Prop where
  result : SameResult outcome.result other.result
  records : other.log.records.Perm outcome.log.records
  /-- One function writes the types into the declarations of both programs. -/
  annotated : ∃ annotate : ClassDecl → ClassDecl,
    outcome.program.classes = program.withBuiltins.classes.map annotate ∧
      other.program.classes = shuffled.withBuiltins.classes.map annotate

theorem sameResult_verdict {log otherLog : Log} (hrecords : otherLog.records.Perm log.records)
    {hierarchy other : Hierarchy} (htree : SameTree hierarchy other) :
    SameResult (log.verdict.map fun _ => hierarchy) (otherLog.verdict.map fun _ => other) := by
  have hcount : otherLog.count = log.count := hrecords.length_eq
  have herrors : otherLog.hasErrors = log.hasErrors := by
    rw [Log.hasErrors, Log.hasErrors, hrecords.isEmpty_eq]
  unfold Log.verdict
  rw [herrors, hcount]
  cases log.hasErrors with
  | false => exact .ok htree
  | true => exact .rejected log.count log.report otherLog.report

theorem sameOutcome_rejected {otherRecords : List Diagnostic}
    (hrecords : otherRecords.Perm records) :
    SameOutcome program shuffled (rejected options program.withBuiltins records)
      (rejected options shuffled.withBuiltins otherRecords) where
  result := by
    rw [rejected, rejected, Log.count, Log.count, hrecords.length_eq]
    exact .rejected _ _ _
  records := hrecords
  annotated := ⟨id, (List.map_id _).symm, (List.map_id _).symm⟩

theorem sameOutcome_finished {otherRecords : List Diagnostic}
    (hrecords : otherRecords.Perm records) (htree : collected.IsTree)
    (hsame : collected.Reordered otherCollected) (annotate : ClassDecl → ClassDecl) :
    SameOutcome program shuffled
      (finished options (collected, ⟨program.withBuiltins.classes.map annotate⟩) records)
      (finished options (otherCollected, ⟨shuffled.withBuiltins.classes.map annotate⟩)
        otherRecords) where
  result := sameResult_verdict hrecords (sameTree_of_reordered hsame htree)
  records := hrecords
  annotated := ⟨annotate, rfl, rfl⟩

/-- The order of the declarations of a program does not matter. -/
theorem check_shuffled (hperm : shuffled.classes.Perm program.classes)
    (huser : ∀ decl ∈ program.classes, decl.isBuiltin = false)
    (hnodup : (program.classes.map ClassDecl.name).Nodup)
    (hcount : (check options program).log.count ≤ options.maxErrors)
    (hotherCount : (check options shuffled).log.count ≤ options.maxErrors) :
    SameOutcome program shuffled (check options program) (check options shuffled) := by
  have hshuffled : ∀ decl ∈ shuffled.classes, decl.isBuiltin = false :=
    fun decl hdecl => huser decl (hperm.mem_iff.mp hdecl)
  obtain ⟨base, linked, accepting, linking, otherBase, otherLinked, otherAccepting, otherLinking,
    hbuilds, hother, hlinked, hbuilding⟩ := Hierarchy.exists_builds_shuffled hperm huser hnodup
  have hcheck := check_of_runOn_build (runOn_build hbuilds.builds.yields hcount)
  have hotherCheck := check_of_runOn_build (runOn_build hother.builds.yields hotherCount)
  rw [hcheck] at hcount ⊢
  rw [hotherCheck] at hotherCount ⊢
  -- both trees have records or none has, so both checks go on to the members or none does
  by_cases hquiet : accepting ++ linking = []
  · have hotherQuiet : otherAccepting ++ otherLinking = [] := by
      rwa [hquiet, List.perm_nil] at hbuilding
    rw [if_pos hquiet] at hcount ⊢
    rw [if_pos hotherQuiet] at hotherCount ⊢
    obtain ⟨rfl, rfl⟩ := List.append_eq_nil_iff.mp hquiet
    have hclasses : shuffled.withBuiltins.classes.Perm program.withBuiltins.classes := by
      rw [Hierarchy.classes_withBuiltins huser, Hierarchy.classes_withBuiltins hshuffled]
      exact hperm.append_right _
    obtain ⟨collected, otherCollected, annotate, records, otherRecords, hmembers, hotherMembers,
      htree, hsame, hrecords⟩ := exists_checkMembers_shuffled options hbuilds.tree hlinked hclasses
        (hbuilds.nodup_names huser)
    rw [finish_eq hmembers hcount, finish_eq hotherMembers hotherCount]
    exact sameOutcome_finished hrecords htree hsame annotate
  · have hotherQuiet : ¬ otherAccepting ++ otherLinking = [] := by
      intro hnil
      rw [hnil, List.nil_perm] at hbuilding
      exact hquiet hbuilding
    rw [if_neg hquiet, if_neg hotherQuiet]
    exact sameOutcome_rejected hbuilding

/-- Three classes, each above the one before it, with a method that all of them have. -/
def layeredProgram : Program where
  classes :=
    [{ name := "Main", parent := some "Middle", file := "main", line := 1, members :=
        [.method ⟨"get", .int, [], [.ret (some (.unchecked 2 (.var "size"))) 2], 2⟩,
          .method ⟨"main", .void, [],
            [.expr (.unchecked 4 (.callOn (.unchecked 4 (.var "super")) "get" []))], 3⟩] },
      { name := "Middle", parent := some "Top", file := "middle", line := 1, members :=
        [.field ⟨"size", .int, none, 2⟩,
          .method ⟨"get", .int, [], [.ret (some (.unchecked 3 (.int 1))) 3], 3⟩] },
      { name := "Top", file := "top", line := 1, members :=
        [.method ⟨"get", .int, [], [.ret (some (.unchecked 2 (.int 0))) 2], 2⟩] }]

/-- The program with its classes the other way round. -/
def turned (program : Program) : Program :=
  ⟨program.classes.reverse⟩

theorem layeredProgram_turned :
    ((check {} layeredProgram).log.count = 0 ∧
      SameOutcome layeredProgram (turned layeredProgram) (check {} layeredProgram)
        (check {} (turned layeredProgram))) ∧
    (check {} Hierarchy.tangledProgram).log.count = 5 ∧
      SameOutcome Hierarchy.tangledProgram (turned Hierarchy.tangledProgram)
        (check {} Hierarchy.tangledProgram) (check {} (turned Hierarchy.tangledProgram)) := by
  refine ⟨⟨by decide +kernel, ?_⟩, by decide +kernel, ?_⟩
  · apply check_shuffled (List.reverse_perm _)
    all_goals decide +kernel
  · apply check_shuffled (List.reverse_perm _)
    all_goals decide +kernel

end ClassLang.Analysis
