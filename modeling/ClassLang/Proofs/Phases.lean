/-
# The phases of a check

A check goes over a program twice, for the class tree and, if nothing is wrong with it,
for everything else. Which records the phases make does not depend on the limit; the
limit only tells how many of them are kept, and that number alone decides the result. A
check that ends well has made no record in any phase, which says how each of them went.
-/

import ClassLang.Proofs.DeclarationOrder
import ClassLang.Proofs.Diagnostic.Pairing
import ClassLang.Proofs.Hierarchy.Rooted

namespace ClassLang.Analysis

open CheckM

variable {options : Options} {program : Program} {linked : Hierarchy} {records : List Diagnostic}

/-! ## The result of a pass -/

/-- A pass that was stopped fails for the limit, any other one by its records. -/
theorem phaseResult_eq {pass : Pass} (hpass : pass.log.isOver = pass.stopped) :
    phaseResult pass =
      if pass.log.limit < pass.log.count then .error (.tooMany pass.log.limit)
      else if pass.log.count = 0 then .ok ()
      else .error (.rejected pass.log.count pass.log.report) := by
  have hempty : pass.log.hasErrors = false ↔ pass.log.count = 0 := by
    simp [Log.hasErrors, Log.count]
  rw [Log.isOver] at hpass
  rw [phaseResult, Pass.outcome, ← hpass]
  by_cases hover : pass.log.limit < pass.log.count
  · simp only [hover, decide_true, if_true]
    rfl
  · rw [if_neg hover, decide_eq_false hover, if_neg Bool.false_ne_true]
    show pass.log.verdict = _
    rw [Log.verdict]
    cases herrors : pass.log.hasErrors with
    | false => rw [if_neg Bool.false_ne_true, if_pos (hempty.mp herrors)]
    | true =>
        have hcount : pass.log.count ≠ 0 := by
          intro hzero
          rw [hempty.mpr hzero] at herrors
          cases herrors
        rw [if_pos rfl, if_neg hcount]

/-- What a check leaves behind that ends with this pass. -/
def conclude (pass : Pass) (value : Hierarchy × Program) : Outcome :=
  { result := (phaseResult pass).map fun _ => value.1, program := value.2, log := pass.log }

theorem ok_of_conclude_ok {pass : Pass} {value : Hierarchy × Program} {hierarchy : Hierarchy}
    (hresult : (conclude pass value).result = .ok hierarchy) :
    phaseResult pass = .ok () ∧ value.1 = hierarchy := by
  rw [conclude] at hresult
  cases hphase : phaseResult pass with
  | error failure =>
      rw [hphase] at hresult
      cases hresult
  | ok =>
      rw [hphase] at hresult
      exact ⟨rfl, Except.ok.inj hresult⟩

theorem phaseResult_reportAll_fresh_ok_iff {limit : Nat} :
    phaseResult ((Pass.fresh limit).reportAll records) = .ok () ↔ records = [] := by
  constructor
  · intro hok
    have hnone := records_of_phaseResult_ok hok
    rw [Pass.records_reportAll_fresh] at hnone
    cases records with
    | nil => rfl
    | cons record records => cases hnone
  · rintro rfl
    rfl

/-! ## Both phases -/

/-- A check ends with the first phase if that makes a record. -/
theorem check_of_reports_build (options : Options)
    (hbuild : Reports (Hierarchy.build program.withBuiltins) linked records) :
    check options program =
      if records = [] then
        finish options { limit := options.maxErrors } linked program.withBuiltins
      else
        conclude ((Pass.fresh options.maxErrors).reportAll records)
          (linked, program.withBuiltins) := by
  have hrun : (Hierarchy.build program.withBuiltins).runOn { limit := options.maxErrors } =
      (linked, (Pass.fresh options.maxErrors).reportAll records) := hbuild _
  simp only [check, run, hrun]
  cases hphase : phaseResult ((Pass.fresh options.maxErrors).reportAll records) with
  | ok =>
      obtain rfl := phaseResult_reportAll_fresh_ok_iff.mp hphase
      rfl
  | error failure =>
      have hsome : records ≠ [] := by
        rintro rfl
        cases hphase
      rw [if_neg hsome, conclude, hphase]
      rfl

theorem finish_eq_conclude_run (options : Options) (linked : Hierarchy) (program : Program) :
    finish options { limit := options.maxErrors } linked program =
      conclude ((checkMembers options linked program).run (Pass.fresh options.maxErrors)).2
        ((checkMembers options linked program).run (Pass.fresh options.maxErrors)).1 :=
  rfl

theorem finish_eq_conclude {value : Hierarchy × Program}
    (hmembers : Yields (checkMembers options linked program) value records) :
    finish options { limit := options.maxErrors } linked program =
      conclude ((Pass.fresh options.maxErrors).reportAll records)
        ((checkMembers options linked program).run (Pass.fresh options.maxErrors)).1 := by
  rw [finish_eq_conclude_run, hmembers.pass_eq]

/-- What the second phase finds in a tree, member by member and then body by body. -/
structure Surveys (options : Options) (program : Program) (linked : Hierarchy)
    (collected : Hierarchy) (annotated : Program) (collecting : String → List Diagnostic)
    (typing : List Diagnostic) : Prop where
  settled : Hierarchy.Settled program linked collected collecting linked.rootFirst.reverse
  collects : Yields (linked.collectMembers program) collected
    (linked.rootFirst.flatMap collecting)
  types : Yields (checkBodies options collected program) (collected, annotated) typing

theorem exists_surveys (options : Options) (htree : linked.IsTree) (program : Program) :
    ∃ collected annotated collecting typing,
      Surveys options program linked collected annotated collecting typing := by
  obtain ⟨collected, collecting, hcollect, hsettled⟩ :=
    Hierarchy.exists_collectMembers htree program
  obtain ⟨_, _, _, hbodies⟩ := exists_checkBodies options (.refl collected)
  exact ⟨collected, _, collecting, _, hsettled, hcollect, (hbodies program).1⟩

theorem Surveys.members {collected : Hierarchy} {annotated : Program}
    {collecting : String → List Diagnostic} {typing : List Diagnostic}
    (hsurveys : Surveys options program linked collected annotated collecting typing) :
    Yields (checkMembers options linked program) (collected, annotated)
      (linked.rootFirst.flatMap collecting ++ typing) :=
  hsurveys.collects.bind hsurveys.types fun _ => reporting_checkBodies options _ program

/-- Whatever the limit, a check comes to these records and, if they all are within the
limit, to this hierarchy and this program. -/
def Finds (options : Options) (program : Program) (complete : Hierarchy × Program)
    (records : List Diagnostic) : Prop :=
  ∀ limit, ∃ value, check { options with maxErrors := limit } program =
      conclude ((Pass.fresh limit).reportAll records) value ∧
    (((Pass.fresh limit).reportAll records).stopped = false → value = complete)

theorem exists_finds (options : Options) (program : Program) :
    ∃ complete records, Finds options program complete records := by
  obtain ⟨base, linked, accepting, linking, hall⟩ :=
    Hierarchy.exists_assembles program.withBuiltins
  by_cases hquiet : accepting ++ linking = []
  · obtain ⟨rfl, rfl⟩ := List.append_eq_nil_iff.mp hquiet
    have htree := hall.isTree
    obtain ⟨collected, annotated, collecting, typing, hsurveys⟩ :=
      exists_surveys options htree program.withBuiltins
    refine ⟨(collected, annotated), _, fun limit => ⟨_, ?_, hsurveys.members.value_eq _⟩⟩
    rw [check_of_reports_build { options with maxErrors := limit } hall.builds, if_pos hquiet]
    exact finish_eq_conclude hsurveys.members
  · refine ⟨(linked, program.withBuiltins), accepting ++ linking, fun limit => ?_⟩
    have hcheck := check_of_reports_build { options with maxErrors := limit } hall.builds
    rw [if_neg hquiet] at hcheck
    exact ⟨_, hcheck, fun _ => rfl⟩

/-! ## Checks that end well -/

/-- How a check went that ended with this hierarchy and this program. -/
structure Accepted (options : Options) (program : Program) (base linked hierarchy : Hierarchy)
    (annotated : Program) : Prop where
  assembles : Hierarchy.Assembles program.withBuiltins base linked [] []
  tree : linked.IsTree
  names : hierarchy.names = linked.names
  collects : Yields (linked.collectMembers program.withBuiltins) hierarchy []
  /-- The tables of every class follow from those of its parent. -/
  made : ∀ name info, linked.get? name = some info →
    ∃ tables, hierarchy.get? name = some (Hierarchy.withTables info tables) ∧
      Yields (Hierarchy.makeTables program.withBuiltins hierarchy info) tables []
  types : Yields (checkBodies options hierarchy program.withBuiltins) (hierarchy, annotated) []

theorem exists_accepted {hierarchy : Hierarchy}
    (hresult : (check options program).result = .ok hierarchy) :
    ∃ base linked, Accepted options program base linked hierarchy
      (check options program).program := by
  obtain ⟨base, linked, accepting, linking, hall⟩ :=
    Hierarchy.exists_assembles program.withBuiltins
  rw [check_of_reports_build options hall.builds] at hresult ⊢
  by_cases hquiet : accepting ++ linking = []
  · rw [if_pos hquiet] at hresult ⊢
    obtain ⟨rfl, rfl⟩ := List.append_eq_nil_iff.mp hquiet
    have htree := hall.isTree
    obtain ⟨collected, annotated, collecting, typing, hsurveys⟩ :=
      exists_surveys options htree program.withBuiltins
    rw [finish_eq_conclude hsurveys.members] at hresult ⊢
    obtain ⟨hok, hhierarchy⟩ := ok_of_conclude_ok hresult
    have hnone := phaseResult_reportAll_fresh_ok_iff.mp hok
    have hvalue := hsurveys.members.value_eq (Pass.fresh options.maxErrors) (by rw [hnone]; rfl)
    obtain ⟨hcollecting, rfl⟩ := List.append_eq_nil_iff.mp hnone
    rw [hvalue] at hhierarchy ⊢
    obtain rfl : collected = hierarchy := hhierarchy
    refine ⟨base, linked, hall, htree, hsurveys.settled.names, hcollecting ▸ hsurveys.collects,
      ?_, hsurveys.types⟩
    intro name info hget
    have hvisited : name ∈ linked.rootFirst :=
      htree.rootFirst_perm_names.mem_iff.mpr (Hierarchy.mem_names_of_get? hget)
    have hmade := hsurveys.settled.made name (List.mem_reverse.mpr hvisited) info hget
    rwa [List.flatMap_eq_nil_iff.mp hcollecting name hvisited] at hmade
  · rw [if_neg hquiet] at hresult
    have hok := (ok_of_conclude_ok hresult).1
    exact absurd (phaseResult_reportAll_fresh_ok_iff.mp hok) hquiet

/-- Collecting members leaves the tree as it was. -/
theorem Accepted.isTree {base hierarchy : Hierarchy} {annotated : Program}
    (haccepted : Accepted options program base linked hierarchy annotated) :
    hierarchy.IsTree := by
  apply haccepted.tree.withTables haccepted.names
  intro name info hget
  obtain ⟨tables, hfinal, _⟩ := haccepted.made name info hget
  exact ⟨tables, hfinal⟩

/-- The tables of a class are those that its declaration makes from the tables of its
parent, without a record. -/
structure Declared (program : Program) (hierarchy : Hierarchy) (info : ClassInfo)
    (decl : ClassDecl) : Prop where
  declaration : Hierarchy.declaration? program info = some decl
  fields : Quiet (Pass.fresh 0) (decl.fields.foldlM (hierarchy.declareField decl)
    (hierarchy.inherited info ClassInfo.fields)) info.fields
  methods : Quiet (Pass.fresh 0) (decl.methods.foldlM (hierarchy.declareMethod decl)
    (hierarchy.inherited info ClassInfo.methods)) info.methods

theorem Accepted.declared {base hierarchy : Hierarchy} {annotated : Program}
    (haccepted : Accepted options program base linked hierarchy annotated) {name : String}
    {info : ClassInfo} (hget : hierarchy.get? name = some info) :
    ∃ decl, Declared program.withBuiltins hierarchy info decl := by
  have hname := Hierarchy.mem_names_of_get? hget
  rw [haccepted.names] at hname
  obtain ⟨start, hstart⟩ := Hierarchy.exists_get?_of_mem_names hname
  obtain ⟨tables, hfinal, hmakes⟩ := haccepted.made name start hstart
  obtain ⟨decl, hdecl⟩ := haccepted.assembles.exists_declaration hstart
  obtain rfl : _ = info := Option.some.inj (hfinal.symm.trans hget)
  have hquiet := hmakes.quiet (rfl : (Pass.fresh 0).stopped = false)
  simp only [Hierarchy.makeTables, hdecl] at hquiet
  obtain ⟨hfields, hmethods⟩ := (Hierarchy.quiet_declareMembers_iff rfl).mp hquiet
  exact ⟨decl, hdecl, hfields, hmethods⟩

/-! ## The number of records -/

/-- An outcome whose result is told by the number of its records. -/
structure ToldByCount (limit : Nat) (outcome : Outcome) : Prop where
  count_le : outcome.log.count ≤ limit + 1
  ok_iff : (∃ hierarchy, outcome.result = .ok hierarchy) ↔ outcome.log.count = 0
  tooMany_iff : ∀ reported, outcome.result = .error (.tooMany reported) ↔
    outcome.log.count = limit + 1 ∧ reported = limit
  rejected_iff : ∀ count report, outcome.result = .error (.rejected count report) ↔
    (1 ≤ outcome.log.count ∧ outcome.log.count ≤ limit) ∧
      count = outcome.log.count ∧ report = outcome.log.report

theorem count_reportAll_fresh_le (limit : Nat) (records : List Diagnostic) :
    ((Pass.fresh limit).reportAll records).log.count ≤ limit + 1 := by
  rw [Log.count, Pass.records_reportAll_fresh]
  exact List.length_take_le _ _

theorem result_conclude {pass : Pass} (hpass : pass.log.isOver = pass.stopped)
    (value : Hierarchy × Program) :
    (conclude pass value).result =
      if pass.log.limit < pass.log.count then .error (.tooMany pass.log.limit)
      else if pass.log.count = 0 then .ok value.1
      else .error (.rejected pass.log.count pass.log.report) := by
  rw [conclude, phaseResult_eq hpass]
  split
  · rfl
  · split <;> rfl

theorem toldByCount_conclude {pass : Pass} (hpass : pass.log.isOver = pass.stopped)
    (hbound : pass.log.count ≤ pass.log.limit + 1) (value : Hierarchy × Program) :
    ToldByCount pass.log.limit (conclude pass value) := by
  have hresult := result_conclude hpass value
  have hlog : (conclude pass value).log = pass.log := rfl
  by_cases hover : pass.log.limit < pass.log.count
  · rw [if_pos hover] at hresult
    refine ⟨hbound, ?_, fun reported => ?_, fun count report => ?_⟩
    · simp only [hresult, hlog, reduceCtorEq, exists_false, false_iff]
      omega
    · simp only [hresult, hlog, Except.error.injEq, Failure.tooMany.injEq]
      omega
    · simp only [hresult, hlog, reduceCtorEq, Except.error.injEq, false_iff]
      omega
  · rw [if_neg hover] at hresult
    by_cases hzero : pass.log.count = 0
    · rw [if_pos hzero] at hresult
      refine ⟨hbound, ?_, fun reported => ?_, fun count report => ?_⟩
      · simp only [hresult, hlog, Except.ok.injEq, exists_eq', true_iff]
        exact hzero
      · simp only [hresult, hlog, reduceCtorEq, false_iff]
        omega
      · simp only [hresult, hlog, reduceCtorEq, false_iff]
        omega
    · rw [if_neg hzero] at hresult
      have hwithin : 1 ≤ pass.log.count ∧ pass.log.count ≤ pass.log.limit := by omega
      refine ⟨hbound, ?_, fun reported => ?_, fun count report => ?_⟩
      · simp only [hresult, hlog, reduceCtorEq, exists_false, false_iff]
        exact hzero
      · simp only [hresult, hlog, reduceCtorEq, Except.error.injEq, false_iff]
        omega
      · simp only [hresult, hlog, Except.error.injEq, Failure.rejected.injEq]
        rw [and_iff_right hwithin, eq_comm, @eq_comm _ report]

/-- The number of records of a check decides its result. -/
theorem check_toldByCount (options : Options) (program : Program) :
    ToldByCount options.maxErrors (check options program) := by
  obtain ⟨_, records, hfinds⟩ := exists_finds options program
  obtain ⟨value, hcheck, _⟩ := hfinds options.maxErrors
  have hbound := count_reportAll_fresh_le options.maxErrors records
  have hlimit := Pass.limit_reportAll (Pass.fresh options.maxErrors) records
  have htold := toldByCount_conclude (Pass.isOver_reportAll_fresh options.maxErrors records)
    (hlimit ▸ hbound) value
  rw [← hcheck, hlimit] at htold
  exact htold

end ClassLang.Analysis
