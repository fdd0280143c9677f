/-
# Types in checked programs

A program that passes its check has the type that the rules give in every expression. The
type exists: tables hold no others, since what is written in a class is looked up when its
members are collected and the rest comes from its parent. Nothing is left unknown, and
`void` is found for calls alone.
-/

import ClassLang.Proofs.ErrorLimit
import ClassLang.Proofs.Typing.Annotating

namespace ClassLang.Analysis

open CheckM

variable {options : Options} {program annotated : Program} {base linked hierarchy : Hierarchy}

/-! ## Tables of checked programs -/

/-- The types in the tables of every class exist: those of its parent do, and those that it
adds have been looked up. -/
theorem Accepted.tables (haccepted : Accepted options program base linked hierarchy annotated)
    {name : String} (hname : name ∈ hierarchy.names) :
    ∀ info, hierarchy.get? name = some info →
      (info.fields.All fun type => hierarchy.validType false type = true) ∧
        info.methods.All fun sig => hierarchy.validType true sig.returnType = true := by
  refine haccepted.isTree.induction ?_ hname
  intro name _ ih info hget
  obtain ⟨decl, hdeclared⟩ := haccepted.declared hget
  have habove (parent : String) (above : ClassInfo) (hparent : info.parent = some parent)
      (habove : hierarchy.get? parent = some above) :=
    ih parent (Hierarchy.isParent_of_get? hget hparent) above habove
  have hfields := Hierarchy.fields_of_quiet rfl (fun _ _ hvalid => hvalid)
    (Hierarchy.all_inherited info fun parent above hparent hget =>
      (habove parent above hparent hget).1) hdeclared.fields
  have hmethods := Hierarchy.methods_of_quiet rfl (fun _ _ hvalid => hvalid)
    (Hierarchy.all_inherited info fun parent above hparent hget =>
      (habove parent above hparent hget).2) hdeclared.methods
  exact ⟨hfields.1, hmethods.1⟩

theorem Accepted.typesExist (haccepted : Accepted options program base linked hierarchy annotated)
    (huser : ∀ decl ∈ program.classes, decl.isBuiltin = false) : hierarchy.TypesExist where
  fields := by
    intro className name type hfield
    obtain ⟨info, hget, hlookup⟩ := Option.bind_eq_some_iff.mp hfield
    exact (haccepted.tables (Hierarchy.mem_names_of_get? hget) info hget).1 name type hlookup
  methods := by
    intro className name sig hmethod
    obtain ⟨info, hget, hlookup⟩ := Option.bind_eq_some_iff.mp hmethod
    exact (haccepted.tables (Hierarchy.mem_names_of_get? hget) info hget).2 name sig hlookup
  parents := by
    intro child parent hparent
    exact Hierarchy.contains_iff_mem_names.mpr (haccepted.isTree.parent_mem child parent hparent)
  string := by
    have hbase : Builtin.stringClass.name ∈ base.names := by
      rw [Hierarchy.names, haccepted.assembles.complete rfl,
        Hierarchy.declarations_withBuiltins huser, List.map_map, List.map_append]
      exact List.mem_append_left _ (by decide)
    rw [← haccepted.assembles.same.1, ← haccepted.names] at hbase
    exact Hierarchy.contains_iff_mem_names.mpr hbase

theorem Accepted.prepared (haccepted : Accepted options program base linked hierarchy annotated)
    (huser : ∀ decl ∈ program.classes, decl.isBuiltin = false)
    (hwritten : ∀ written ∈ program.writtenTypes, written.errorFree = true) :
    hierarchy.Prepared program :=
  Hierarchy.prepared_of_quiet huser hwritten (haccepted.assembles.builds (Pass.fresh 0))
    (haccepted.collects.quiet rfl)

/-! ## Expressions of checked programs -/

theorem ensures_checkBodies (options : Options) {given : Prop} {shown : Program → Prop}
    (htypes : Ensures given (Typing.checkProgram hierarchy program) shown) :
    Ensures given (checkBodies options hierarchy program) fun result => shown result.2 := by
  have hpair : Ensures given (Typing.checkProgram hierarchy program >>= fun program =>
      pure (hierarchy, program)) fun result => shown result.2 :=
    htypes.bind fun _ => .pure And.right
  unfold checkBodies
  cases options.requireMain with
  | false => exact hpair
  | true =>
      obtain ⟨_, _, hentry, _⟩ := agree_checkEntry (.refl hierarchy) options.mainClass
        options.mainMethod
      exact (Ensures.rule hentry.reporting).bind fun _ => hpair.of_given And.left

/-- A check that ends well has left the program as it was but for the types, and has
written one that exists into every expression. -/
theorem check_typed (huser : ∀ decl ∈ program.classes, decl.isBuiltin = false)
    (hwritten : ∀ written ∈ program.writtenTypes, written.errorFree = true)
    (hresult : (check options program).result = .ok hierarchy) :
    (check options program).program.blank = program.withBuiltins.blank ∧
      ∀ decl ∈ (check options program).program.classes, ∀ node ∈ decl.nodes,
        ∃ type, node.ty = some type ∧ type.errorFree = true ∧
          hierarchy.validType true type = true ∧ (type = .void → node.form.isCall = true) := by
  refine ⟨(check_writes options program).shape, ?_⟩
  obtain ⟨base, linked, haccepted⟩ := exists_accepted hresult
  have hprepared := haccepted.prepared huser hwritten
  have hprogram : Ensures True (Typing.checkProgram hierarchy program.withBuiltins) _ :=
    Typing.ensures_checkProgram huser hwritten hprepared (haccepted.typesExist huser)
  have htyped := (ensures_checkBodies options hprogram).of_quiet trivial
    (rfl : (Pass.fresh 0).stopped = false) (haccepted.types.quiet rfl)
  intro decl hdecl node hnode
  obtain ⟨type, hty, hfree, hvalid⟩ := htyped decl hdecl node hnode
  refine ⟨type, hty, hfree, Hierarchy.validType_true hvalid, ?_⟩
  rintro rfl
  exact hvalid

theorem stackProgram_typed :
    ((∀ decl ∈ Typing.stackProgram.classes, decl.isBuiltin = false) ∧
      (∀ written ∈ Typing.stackProgram.writtenTypes, written.errorFree = true) ∧
      (check {} Typing.stackProgram).result = .ok Typing.stackClasses) ∧
    ((check {} Typing.stackProgram).program.classes.flatMap ClassDecl.nodes).length = 19 ∧
    (check {} Typing.stackProgram).program.blank = Typing.stackProgram.withBuiltins.blank ∧
      ∀ decl ∈ (check {} Typing.stackProgram).program.classes, ∀ node ∈ decl.nodes,
        ∃ type, node.ty = some type ∧ type.errorFree = true ∧
          Typing.stackClasses.validType true type = true ∧
          (type = .void → node.form.isCall = true) := by
  have huser : ∀ decl ∈ Typing.stackProgram.classes, decl.isBuiltin = false := by decide
  have hwritten : ∀ written ∈ Typing.stackProgram.writtenTypes, written.errorFree = true := by
    decide
  have hresult : (check {} Typing.stackProgram).result = .ok Typing.stackClasses := by
    decide +kernel
  exact ⟨⟨huser, hwritten, hresult⟩, by decide +kernel, check_typed huser hwritten hresult⟩

end ClassLang.Analysis
