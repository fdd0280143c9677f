/-
# The way up to the root

Whatever a program declares, also under the name of the built-in file, the classes
that are built from it have no cycle of parents. If the root is one of them, every
way up ends there; and it is one of them unless something was reported. So the
count of descendants at the end of building never finds anything.
-/

import ClassLang.Proofs.Hierarchy.Building

namespace ClassLang.Hierarchy

open Relation CheckM

variable {hierarchy : Hierarchy}

/-! ## Ways up -/

theorem isChain_chain (steps : Nat) (start : Option String) :
    (hierarchy.chain steps start).IsChain hierarchy.IsParent := by
  induction steps generalizing start with
  | zero => cases start <;> exact .nil
  | succ steps ih =>
      cases start with
      | none => exact .nil
      | some name =>
          rw [chain]
          -- what follows a class in a chain is its parent
          cases hparent : hierarchy.parent? name with
          | none => cases steps <;> exact .singleton name
          | some parent =>
              have hrest := ih (some parent)
              cases steps with
              | zero => exact .singleton name
              | succ steps => exact .cons_cons hparent hrest

/-- A class without a parent is the last of every chain that it is in. -/
theorem getLast?_chain {top : String} (htop : hierarchy.parent? top = none) {steps : Nat}
    {start : Option String} (hmem : top ∈ hierarchy.chain steps start) :
    (hierarchy.chain steps start).getLast? = some top := by
  induction steps generalizing start with
  | zero => cases start <;> cases hmem
  | succ steps ih =>
      cases start with
      | none => cases hmem
      | some name =>
          rw [chain, List.mem_cons] at hmem
          rw [chain, List.getLast?_cons]
          rcases hmem with rfl | hmem
          · rw [htop]
            cases steps <;> rfl
          · rw [ih hmem, Option.getD_some]

/-- The way up from a class: from each class on it to that one's parent, never to the
same class twice, and to the root, where it ends. -/
structure Ascends (hierarchy : Hierarchy) (name : String) : Prop where
  parents : (name :: hierarchy.ancestors name).IsChain hierarchy.IsParent
  known : ∀ ancestor ∈ hierarchy.ancestors name, ancestor ∈ hierarchy.names
  nodup : (name :: hierarchy.ancestors name).Nodup
  short : (hierarchy.ancestors name).length < hierarchy.size
  last : (hierarchy.ancestors name).getLast? = some Ty.objectName
  top : hierarchy.parent? Ty.objectName = none

theorem IsTree.ascends (htree : hierarchy.IsTree) {name : String} (hname : name ∈ hierarchy.names)
    (hroot : name ≠ Ty.objectName) : hierarchy.Ascends name := by
  have hchain : hierarchy.chain (hierarchy.size + 1) (some name) =
      name :: hierarchy.ancestors name := rfl
  have hparents := @isChain_chain hierarchy (hierarchy.size + 1) (some name)
  have hnodup := nodup_chain htree.acyclic (hierarchy.size + 1) (some name)
  have hlast := getLast?_chain htree.parent?_root (htree.root_mem_chain hname)
  have hknown : ∀ other ∈ hierarchy.chain (hierarchy.size + 1) (some name),
      other ∈ hierarchy.names :=
    fun other hother => htree.mem_names_of_reaches hname (reaches_of_mem_chain hother)
  rw [hchain] at hparents hnodup hlast hknown
  refine ⟨hparents, (List.forall_mem_cons.mp hknown).2, hnodup, htree.length_ancestors_lt hname,
    ?_, htree.parent?_root⟩
  cases hancestors : hierarchy.ancestors name with
  | nil =>
      rw [hancestors] at hlast
      exact absurd (Option.some.inj hlast) hroot
  | cons parent rest =>
      rw [hancestors] at hlast
      rwa [List.getLast?_cons_cons] at hlast

/-! ## Where the root is missing -/

/-- Without cycles, some class has no parent among the classes. -/
theorem exists_orphan (hacyclic : hierarchy.Acyclic) {start : String}
    (hstart : start ∈ hierarchy.names) :
    ∃ name ∈ hierarchy.names, ∀ parent ∈ hierarchy.names, ¬ hierarchy.IsParent name parent := by
  by_contra hall
  push Not at hall
  obtain ⟨⟨top, htop, hnone⟩, _⟩ := chain_complete hacyclic start
  have hup : ∀ {upper : String}, ReflTransGen hierarchy.IsParent start upper →
      upper ∈ hierarchy.names := by
    intro upper hreach
    induction hreach with
    | refl => exact hstart
    | tail _ hparent ih =>
        obtain ⟨parent, hknown, hother⟩ := hall _ ih
        rwa [isParent_rightUnique hparent hother]
  obtain ⟨parent, _, hparent⟩ := hall top (hup (reaches_of_mem_chain htop))
  rw [IsParent, hnone] at hparent
  cases hparent

theorem classes_withBuiltins_ne_nil (program : Program) : program.withBuiltins.classes ≠ [] := by
  unfold Program.withBuiltins
  split
  next hany =>
    obtain ⟨decl, hdecl, _⟩ := List.any_eq_true.mp hany
    exact List.ne_nil_of_mem hdecl
  next => simp [Builtin.classes]

namespace Assembles

variable {program : Program} {base linked : Hierarchy} {accepting linking : List Diagnostic}

/-- Without the root some class asks for a parent in vain, unless there is no class or
something was not accepted. -/
theorem root_mem (hall : Assembles program base linked [] [])
    (hprogram : program.classes ≠ []) : Ty.objectName ∈ linked.names := by
  by_contra hroot
  have hnames := hall.same.1
  -- nothing is rejected, so there is a class for every declaration
  obtain ⟨start, hstart⟩ : ∃ start, start ∈ linked.names := by
    refine List.exists_mem_of_ne_nil _ ?_
    rw [hnames, names, hall.complete rfl, Ne, List.map_eq_nil_iff, List.map_eq_nil_iff]
    intro hnil
    have hperm : (declarations program).Perm program.classes := List.filter_append_perm _ _
    rw [hnil, List.nil_perm] at hperm
    exact hprogram hperm
  obtain ⟨name, hname, horphan⟩ := exists_orphan hall.progress.acyclic hstart
  have hmem : name ∈ base.linkedNames := by
    rw [mem_linkedNames, ← hnames]
    refine ⟨hname, ?_⟩
    rintro rfl
    exact hroot hname
  have hkept : ¬ linked.Defaulted base.linkedNames name := by
    obtain ⟨defaulted, _, hdefaulted, hrecords⟩ := hall.records
    have hnil : defaulted = [] := List.map_eq_nil_iff.mp hrecords.symm
    rw [hall.same.defaulted]
    intro hname
    have hmem := (hdefaulted name).mpr ⟨hmem, hname⟩
    rw [hnil] at hmem
    cases hmem
  obtain ⟨parent, hwants⟩ := hall.progress.exists_wants hmem
  refine horphan parent ?_ (hall.progress.kept name hmem hkept parent hwants)
  by_contra hunknown
  refine hkept (.inl ⟨parent, hwants, ?_⟩)
  rintro ⟨info, hget, _⟩
  exact hunknown (mem_names_of_get? hget)

/-- If nothing is reported, the classes form a tree. -/
theorem isTree (hall : Assembles program.withBuiltins base linked [] []) : linked.IsTree :=
  isTree_of_sameClasses hall.accepted.distinct hall.same hall.progress
    (hall.root_mem (classes_withBuiltins_ne_nil program))

end Assembles

/-! ## What is built -/

theorem Fault.message_ne_loop {fault : Fault} (hfault : fault ≠ .loop) :
    fault.message ≠ Fault.loop.message := by
  rw [Ne, ← String.toList_inj]
  delta message
  cases fault with
  | loop => exact absurd rfl hfault
  | _ => simp

theorem message_rejection?_ne_loop {decl : ClassDecl} {record : Diagnostic}
    (hrecord : hierarchy.rejection? decl = some record) :
    record.message ≠ Fault.loop.message := by
  obtain ⟨fault, hfault, rfl⟩ := fault_of_rejection? hrecord
  exact Fault.message_ne_loop hfault

theorem message_linkRecord?_ne_loop {name : String} {record : Diagnostic}
    (hrecord : hierarchy.linkRecord? name = some record) :
    record.message ≠ Fault.loop.message := by
  obtain ⟨info, _, rfl⟩ := Option.map_eq_some_iff.mp hrecord
  apply Fault.message_ne_loop
  unfold linkFault
  split <;> nofun

theorem Assembles.message_ne_loop {program : Program} {base linked : Hierarchy}
    {accepting linking : List Diagnostic}
    (hall : Assembles program base linked accepting linking) {record : Diagnostic}
    (hrecord : record ∈ accepting ++ linking) : record.message ≠ Fault.loop.message := by
  rcases List.mem_append.mp hrecord with haccepting | hlinking
  · obtain ⟨other, decl, hrejection⟩ := hall.rejected record haccepting
    exact message_rejection?_ne_loop hrejection
  · obtain ⟨defaulted, _, _, hrecords⟩ := hall.records
    have hsome : some record ∈ defaulted.map base.linkRecord? :=
      hrecords ▸ List.mem_map_of_mem hlinking
    obtain ⟨name, _, hname⟩ := List.mem_map.mp hsome
    exact message_linkRecord?_ne_loop hname

/-- The classes that building leaves behind, the log it started with and the pass it
ended with. -/
structure Rooted (log : Log) (linked : Hierarchy) (pass : Pass) : Prop where
  /-- From every class it is a way up to the root, if the root is a class. -/
  ascends : Ty.objectName ∈ linked.names →
    ∀ name ∈ linked.names, name ≠ Ty.objectName → linked.Ascends name
  /-- The root is a class, unless something was reported. -/
  root_mem : pass.log = log → Ty.objectName ∈ linked.names
  /-- Nothing that is reported is about a loop. -/
  records : ∃ added, pass.log.records = log.records ++ added ∧
    ∀ record ∈ added, record.message ≠ Fault.loop.message

/-- Whatever is declared, the classes form a tree below the root. -/
theorem build_rooted {program : Program} {log : Log} {linked : Hierarchy} {pass : Pass}
    (hbuild : (build program.withBuiltins).runOn log = (linked, pass)) :
    Rooted log linked pass := by
  obtain ⟨base, found, accepting, linking, hall⟩ := exists_assembles program.withBuiltins
  rw [runOn, hall.builds, Prod.mk.injEq] at hbuild
  obtain ⟨rfl, rfl⟩ := hbuild
  constructor
  · intro hroot name hname hne
    have htree := isTree_of_sameClasses hall.accepted.distinct hall.same hall.progress hroot
    exact htree.ascends hname hne
  · intro hlog
    rw [Pass.reportAll_eq_self_iff rfl, List.append_eq_nil_iff] at hlog
    obtain ⟨rfl, rfl⟩ := hlog
    exact hall.root_mem (classes_withBuiltins_ne_nil program)
  · obtain ⟨added, hadded, hrecords⟩ :=
      Pass.exists_records_reportAll { log := log } (accepting ++ linking)
    exact ⟨added, hrecords, fun record hrecord => hall.message_ne_loop (hadded.subset hrecord)⟩

/-- A root of its own that is declared below another class, in a file that keeps the
built-in classes out, with two classes that extend each other. -/
def spoofedProgram : Program where
  classes :=
    [{ name := "Object", parent := some "Upper", file := "<built-in>", line := 1 },
      { name := "Upper", parent := some "Object", file := "<built-in>", line := 2 },
      { name := "Lower", parent := some "Upper", file := "a", line := 1 },
      { name := "Left", parent := some "Right", file := "a", line := 2 },
      { name := "Right", parent := some "Left", file := "a", line := 3 },
      { name := "String", parent := some "Left", file := "a", line := 4 }]

theorem spoofedProgram_rooted :
    ∃ linked pass, (build spoofedProgram.withBuiltins).runOn { limit := 9 } = (linked, pass) ∧
      pass.log.count = 2 ∧ Ty.objectName ∈ linked.names ∧ "Lower" ∈ linked.names ∧
      linked.ancestors "Lower" = ["Upper", "Object"] ∧ Rooted { limit := 9 } linked pass := by
  refine ⟨_, _, rfl, ?_, ?_, ?_, ?_, build_rooted rfl⟩
  · decide
  · decide
  · decide
  · decide

end ClassLang.Hierarchy
