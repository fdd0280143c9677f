/-
# Checking a program decides whether it is well typed

Once the class tree is built and the members are collected without a record, the
check of a program reports nothing exactly if all members of its classes are allowed
by the typing rules: no violation of a rule is hidden, and no program that keeps the
rules is rejected.
-/

import ClassLang.Proofs.Hierarchy.Collecting
import ClassLang.Proofs.Typing.Statements

namespace ClassLang.Typing

open CheckM

variable {site : Site} {hierarchy : Hierarchy} {given : Prop}

/-! ## Members -/

theorem decides_declareParam (method : MethodDecl) (locals : Scopes Ty) {param : Param}
    (hvalid : site.hierarchy.validType false param.type = true) :
    Decides given id (declareParam site method locals param) fun after =>
      locals.peek param.name = none ∧ locals.add param.name param.type = after := by
  have htype : site.paramType param = param.type := by simp [Site.paramType, hvalid]
  rw [declareParam, htype]
  refine Decides.report_of_isSome ?_
  exact .pure (locals.add param.name param.type)

/-- The names are new in the innermost scope also after one more is there, if they
are others. -/
theorem forall_peek_add_iff {locals : Scopes Ty} {name : String} {type : Ty} {params : List Param} :
    (∀ param ∈ params, (locals.add name type).peek param.name = none) ↔
      name ∉ params.map Param.name ∧ ∀ param ∈ params, locals.peek param.name = none := by
  simp only [Scopes.peek_add]
  grind

/-- Parameters are declared without a report if their names are new and distinct. -/
theorem decides_declareParams (method : MethodDecl) {params : List Param}
    (hvalid : ∀ param ∈ params, site.hierarchy.validType false param.type = true)
    (locals : Scopes Ty) :
    Decides given id (params.foldlM (declareParam site method) locals) fun after =>
      (params.map Param.name).Nodup ∧ (∀ param ∈ params, locals.peek param.name = none) ∧
        params.foldl (fun locals param => locals.add param.name param.type) locals = after := by
  induction params generalizing locals with
  | nil => exact (Decides.pure locals).congr fun _ _ => by simp
  | cons param params ih =>
      rw [List.forall_mem_cons] at hvalid
      rw [List.foldlM_cons]
      refine Decides.congr ((decides_declareParam method locals hvalid.1).bind fun middle =>
        (ih hvalid.2 middle).of_given And.left) fun _ after => ?_
      rw [List.map_cons, List.nodup_cons, List.forall_mem_cons, List.foldl_cons]
      constructor
      · rintro ⟨_, ⟨hfresh, rfl⟩, hnodup, hrest, hafter⟩
        rw [forall_peek_add_iff] at hrest
        exact ⟨⟨hrest.1, hnodup⟩, ⟨hfresh, hrest.2⟩, hafter⟩
      · rintro ⟨⟨hnew, hnodup⟩, ⟨hfresh, hrest⟩, hafter⟩
        exact ⟨_, ⟨hfresh, rfl⟩, hnodup, forall_peek_add_iff.mpr ⟨hnew, hrest⟩, hafter⟩

/-- A body sees what is written for its parameters. -/
theorem all_paramScopes {allowed : Ty → Prop} {params : List Param}
    (hparams : ∀ param ∈ params, allowed param.type) : (paramScopes params).All allowed := by
  have hall {locals : Scopes Ty} (hlocals : locals.All allowed) : (params.foldl
      (fun locals param => locals.add param.name param.type) locals).All allowed := by
    induction params generalizing locals with
    | nil => exact hlocals
    | cons param params ih =>
        rw [List.forall_mem_cons] at hparams
        exact ih hparams.2 (Scopes.All.add hlocals param.name hparams.1)
  exact hall nofun

theorem decides_checkField (htables : site.hierarchy.ErrorFree) {field : FieldDecl}
    (hvalid : site.hierarchy.validType false field.type = true)
    (hwritten : ∀ written ∈ (Member.field field).writtenTypes, written.errorFree = true) :
    Decides given (fun _ => ()) (checkField site field) fun _ => MemberOk site (.field field) := by
  have hinit : OptDecided site {} field.init :=
    optDecided htables fun written hmem => hwritten written (List.mem_cons_of_mem _ hmem)
  have hcheck {given : Prop} (found : Option Ty) : Decides given (fun _ => ())
      (site.checkFieldInit field found) fun _ =>
        ∀ type ∈ found, site.hierarchy.compatible field.type type = true := by
    cases found with
    | none => exact (Decides.pure ()).congr fun _ _ => by simp
    | some type =>
        simp only [Site.checkFieldInit, hvalid, if_true]
        exact (Site.decides_requireCompatible _ field.type type).congr fun _ _ => by simp
  simp only [checkField]
  refine Decides.congr ((hinit.decides.of_given fun _ => nofun).bind_snd fun piece found =>
    (hcheck found).bind_unit fun _ => .pure { field with init := piece }) fun _ _ => ?_
  constructor
  · rintro ⟨found, hfound, hsuits, _⟩
    exact .field (exists_rel_iff.mp ⟨found, hfound, hsuits⟩)
  · rintro ⟨hinit⟩
    obtain ⟨found, hfound, hsuits⟩ := exists_rel_iff.mpr hinit
    exact ⟨found, hfound, hsuits, rfl⟩

theorem decides_checkMethod (htables : site.hierarchy.ErrorFree) {method : MethodDecl}
    (hreturns : site.hierarchy.validType true method.returnType = true)
    (hparams : ∀ param ∈ method.params, site.hierarchy.validType false param.type = true)
    (hwritten : ∀ written ∈ (Member.method method).writtenTypes, written.errorFree = true) :
    Decides given (fun _ => ()) (checkMethod site method) fun _ =>
      MemberOk site (.method method) := by
  simp only [Member.writtenTypes, List.cons_append, List.forall_mem_cons, List.forall_mem_append,
    List.forall_mem_map] at hwritten
  have hbody : StmtsDecided site method.returnType method.body :=
    stmtsDecided htables hreturns method.body hwritten.2.2
  have hscopes : (paramScopes method.params).ErrorFree := all_paramScopes hwritten.2.1
  simp only [checkMethod]
  refine Decides.congr ((decides_declareParams method hparams _).bind fun locals =>
    ((hbody 0 false rfl locals).of_given (by
      rintro ⟨_, _, _, rfl⟩
      exact hscopes)).bind_snd fun piece _ =>
      .pure { method with body := piece }) fun _ _ => ?_
  constructor
  · rintro ⟨_, ⟨hnodup, _, rfl⟩, after, hbody, _⟩
    exact .method hnodup hbody
  · rintro (_ | ⟨hnodup, hbody⟩)
    exact ⟨_, ⟨hnodup, fun _ _ => rfl, rfl⟩, _, hbody, rfl⟩

theorem decides_checkMember (htables : site.hierarchy.ErrorFree) {decl : ClassDecl}
    (hheads : site.hierarchy.HeadsValid decl)
    (hwritten : ∀ written ∈ decl.writtenTypes, written.errorFree = true) {member : Member}
    (hmember : member ∈ decl.members) :
    Decides given (fun _ => ()) (checkMember site member) fun _ => MemberOk site member := by
  have hmemberWritten (written : Ty) (hmem : written ∈ member.writtenTypes) :
      written.errorFree = true :=
    hwritten written (List.mem_flatMap.mpr ⟨member, hmember, hmem⟩)
  cases member with
  | field field =>
      have hfield : field ∈ decl.fields := List.mem_filterMap.mpr ⟨_, hmember, rfl⟩
      refine Decides.congr ((decides_checkField htables (hheads.fields field hfield)
        hmemberWritten).bind_unit fun _ => .pure _) fun _ _ => ?_
      simp
  | method method =>
      have hmethod : method ∈ decl.methods := List.mem_filterMap.mpr ⟨_, hmember, rfl⟩
      refine Decides.congr ((decides_checkMethod htables (hheads.returns method hmethod)
        (hheads.params method hmethod) hmemberWritten).bind_unit fun _ => .pure _) fun _ _ => ?_
      simp

/-! ## Programs -/

theorem decides_checkClass {decl : ClassDecl} {allowed : Member → Prop}
    (hmembers : isChecked hierarchy decl = true → ∀ member ∈ decl.members,
      Decides given (fun _ => ()) (checkMember ⟨hierarchy, decl.name, decl.file⟩ member) fun _ =>
        allowed member) :
    Decides given (fun _ => ()) (checkClass hierarchy decl) fun _ =>
      isChecked hierarchy decl = true → ∀ member ∈ decl.members, allowed member := by
  simp only [checkClass]
  split
  next hchecked =>
    refine Decides.congr ((Decides.mapM (hmembers hchecked)).bind_unit fun members =>
      .pure { decl with members }) fun _ _ => ?_
    simp [hchecked]
  next hchecked => exact (Decides.pure decl).congr fun _ _ => by simp [hchecked]

/-- The classes of the program are checked, the built-in ones are not. -/
theorem isChecked_iff {program : Program}
    (huser : ∀ decl ∈ program.classes, decl.isBuiltin = false)
    (hprepared : hierarchy.Prepared program) {decl : ClassDecl}
    (hdecl : decl ∈ program.withBuiltins.classes) :
    isChecked hierarchy decl = true ↔ decl ∈ program.classes := by
  rw [Hierarchy.classes_withBuiltins huser, List.mem_append] at hdecl
  constructor
  · intro hchecked
    rw [isChecked, Bool.and_eq_true, Bool.not_eq_true'] at hchecked
    refine hdecl.resolve_right fun hbuiltin => ?_
    have hfile : ∀ decl ∈ Builtin.classes, decl.isBuiltin = true := by decide
    rw [hfile decl hbuiltin] at hchecked
    cases hchecked.1
  · intro hmem
    obtain ⟨info, hget, hdescribes⟩ := hprepared.describes decl hmem
    simp [isChecked, huser decl hmem, hget, hdescribes]

theorem decides_checkProgram {program : Program}
    (huser : ∀ decl ∈ program.classes, decl.isBuiltin = false)
    (hwritten : ∀ written ∈ program.writtenTypes, written.errorFree = true)
    (hprepared : hierarchy.Prepared program) :
    Decides given (fun _ => ()) (checkProgram hierarchy program.withBuiltins) fun _ =>
      WellTyped hierarchy program := by
  have hclass : ∀ decl ∈ program.withBuiltins.classes, Decides given (fun _ => ())
      (checkClass hierarchy decl) fun _ => isChecked hierarchy decl = true →
        ∀ member ∈ decl.members, MemberOk ⟨hierarchy, decl.name, decl.file⟩ member := by
    intro decl hdecl
    refine decides_checkClass fun hchecked member hmember => ?_
    rw [isChecked_iff huser hprepared hdecl] at hchecked
    exact decides_checkMember hprepared.errorFree (hprepared.heads decl hchecked)
      (fun written hmem => hwritten written (List.mem_flatMap.mpr ⟨decl, hchecked, hmem⟩)) hmember
  refine Decides.congr ((Decides.mapM hclass).bind_unit fun classes =>
    .pure (Program.mk classes)) fun _ _ => ?_
  rw [and_iff_left rfl]
  constructor
  · intro hall decl hdecl
    have hknown : decl ∈ program.withBuiltins.classes := by
      rw [Hierarchy.classes_withBuiltins huser]
      exact List.mem_append_left _ hdecl
    exact hall decl hknown ((isChecked_iff huser hprepared hknown).mpr hdecl)
  · intro htyped decl hdecl hchecked
    exact htyped decl ((isChecked_iff huser hprepared hdecl).mp hchecked)

/-- The check of a program reports nothing exactly if the program is well typed. -/
theorem log_checkProgram_eq_iff_wellTyped {program : Program}
    (huser : ∀ decl ∈ program.classes, decl.isBuiltin = false)
    (hwritten : ∀ written ∈ program.writtenTypes, written.errorFree = true)
    {log : Log} {linked collected : Hierarchy}
    (hbuild : (Hierarchy.build program.withBuiltins).runOn log = (linked, { log := log }))
    (hcollect : (Hierarchy.collectMembers program.withBuiltins linked).runOn log =
      (collected, { log := log })) :
    ((checkProgram collected program.withBuiltins).runOn log).2.log = log ↔
      WellTyped collected program := by
  have hprepared := Hierarchy.prepared_of_quiet huser hwritten hbuild hcollect
  exact (decides_checkProgram huser hwritten hprepared).log_eq_iff trivial rfl

/-- A stack of numbers that prints them, and a class that fills one. -/
def stackProgram : Program where
  classes :=
    [{ name := "Stack", file := "stack", line := 1, members :=
        [.field ⟨"items", .array .int, some (.unchecked 2 (.newArray .int
            (.unchecked 2 (.int 8)))), 2⟩,
          .field ⟨"size", .int, none, 3⟩,
          .method ⟨"push", .named "Stack", [⟨"item", .int⟩],
            [.ifThen (.unchecked 5 (.binary .eq (.unchecked 5 (.var "size"))
                (.unchecked 5 (.field (.unchecked 5 (.var "items")) "length"))))
                (.ret (some (.unchecked 5 .null)) 5) 5,
              .expr (.unchecked 6 (.assignElem (some "this") "items"
                (.unchecked 6 (.unary .postIncr (.unchecked 6 (.var "size"))))
                (.unchecked 6 (.var "item")))),
              .ret (some (.unchecked 7 (.var "this"))) 7], 4⟩] },
      { name := "Main", parent := some "Stack", file := "main", line := 1, members :=
        [.method ⟨"main", .void, [],
            [.decl "size" (.named "Object") (some (.unchecked 3
                (.callOn (.unchecked 3 (.var "super")) "push" [.unchecked 3 (.int 1)]))) 3,
              .whileLoop (.unchecked 4 (.instanceOf (.unchecked 4 (.var "size"))
                  (.named "Stack")))
                (.block [.decl "size" (.named "Stack") (some (.unchecked 5
                    (.cast (.named "Stack") (.unchecked 5 (.var "size"))))) 5,
                  .breakLoop 6] 4) 4], 2⟩] }]

/-- The classes of the stack program. -/
def stackTree : Hierarchy :=
  ((Hierarchy.build stackProgram.withBuiltins).runOn { limit := 9 }).1

/-- The classes of the stack program with their members. -/
def stackClasses : Hierarchy :=
  ((Hierarchy.collectMembers stackProgram.withBuiltins stackTree).runOn { limit := 9 }).1

theorem stackProgram_wellTyped :
    (Hierarchy.build stackProgram.withBuiltins).runOn { limit := 9 } =
        (stackTree, { log := { limit := 9 } }) ∧
      (Hierarchy.collectMembers stackProgram.withBuiltins stackTree).runOn { limit := 9 } =
        (stackClasses, { log := { limit := 9 } }) ∧
      WellTyped stackClasses stackProgram := by
  have huser : ∀ decl ∈ stackProgram.classes, decl.isBuiltin = false := by decide
  have hwritten : ∀ written ∈ stackProgram.writtenTypes, written.errorFree = true := by decide
  have hbuild : (Hierarchy.build stackProgram.withBuiltins).runOn { limit := 9 } =
      (stackTree, { log := { limit := 9 } }) := by decide +kernel
  have hcollect : (Hierarchy.collectMembers stackProgram.withBuiltins stackTree).runOn
      { limit := 9 } = (stackClasses, { log := { limit := 9 } }) := by decide +kernel
  refine ⟨hbuild, hcollect, ?_⟩
  refine (log_checkProgram_eq_iff_wellTyped huser hwritten hbuild hcollect).mp ?_
  decide +kernel

end ClassLang.Typing
