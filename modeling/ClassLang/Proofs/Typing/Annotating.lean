/-
# Expressions get types that exist

A check that reports nothing writes the type that the rules give into every expression,
and that type exists. The rules tell the type of each expression at once; what is left to
show is that the check comes to every expression, and that the local variables it has
there are those that the rules speak of.
-/

import ClassLang.Proofs.Typing.Programs
import ClassLang.Proofs.Typing.Traversal
import ClassLang.Proofs.Typing.Validity

namespace ClassLang

/-! ## Quiet checks -/

namespace CheckM

variable {α β γ : Type} {given : Prop}

/-- The check reports only, and where it is quiet its result is as shown. As with checks
that decide, this is for what is given, and the first part is not. -/
structure Ensures (given : Prop) (check : CheckM α) (shown : α → Prop) : Prop where
  reporting : Reporting check
  of_quiet : given → ∀ {pass : Pass}, pass.stopped = false → ∀ {value : α},
    Quiet pass check value → shown value

namespace Ensures

variable {check : CheckM α} {next : α → CheckM β} {shown : α → Prop} {after : β → Prop}

theorem pure {value : α} (hvalue : given → shown value) :
    Ensures given (Pure.pure value) shown where
  reporting := .pure value
  of_quiet := by
    intro hgiven pass _ result hquiet
    exact quiet_pure_iff.mp hquiet ▸ hvalue hgiven

theorem bind (hcheck : Ensures given check shown)
    (hnext : ∀ value, Ensures (given ∧ shown value) (next value) after) :
    Ensures given (check >>= next) after where
  reporting := .bind hcheck.reporting fun value => (hnext value).reporting
  of_quiet := by
    intro hgiven pass hrunning result hquiet
    obtain ⟨value, hvalue, hresult⟩ := (quiet_bind_iff hrunning hcheck.reporting fun value =>
      (hnext value).reporting).mp hquiet
    have hshown := hcheck.of_quiet hgiven hrunning hvalue
    exact (hnext value).of_quiet ⟨hgiven, hshown⟩ hrunning hresult

/-- A rule whose answer does not matter for what is shown. -/
theorem rule (hcheck : Reporting check) : Ensures given check fun _ => True :=
  ⟨hcheck, fun _ _ _ _ _ => trivial⟩

theorem unlessStopped (old changed : α) :
    Ensures given (CheckM.unlessStopped old changed) (changed = ·) where
  reporting := .unlessStopped old changed
  of_quiet _ _ hrunning _ hquiet := (quiet_unlessStopped_iff hrunning).mp hquiet

theorem of_given {more : Prop} (hgiven : more → given) (hcheck : Ensures given check shown) :
    Ensures more check shown :=
  ⟨hcheck.reporting, fun hmore => hcheck.of_quiet (hgiven hmore)⟩

theorem of_decides {view : α → γ} {holds : γ → Prop} (hcheck : Decides given view check holds) :
    Ensures given check fun value => holds (view value) :=
  ⟨hcheck.reporting, fun hgiven _ hrunning _ hquiet => hcheck.holds_of_quiet hgiven hrunning hquiet⟩

theorem mapM {step : α → CheckM β} {values : List α}
    (hstep : ∀ value ∈ values, Ensures given (step value) after) :
    Ensures given (values.mapM step) fun results => ∀ result ∈ results, after result := by
  induction values with
  | nil => exact .pure fun _ => nofun
  | cons value values ih =>
      rw [List.forall_mem_cons] at hstep
      rw [List.mapM_cons]
      apply hstep.1.bind
      intro result
      apply ((ih hstep.2).of_given And.left).bind
      intro results
      exact .pure fun ⟨⟨_, hresult⟩, hresults⟩ => List.forall_mem_cons.mpr ⟨hresult, hresults⟩

theorem of_shown {more : α → Prop} (hcheck : Ensures given check shown)
    (hshown : given → ∀ value, shown value → more value) : Ensures given check more where
  reporting := hcheck.reporting
  of_quiet hgiven _ hrunning value hquiet :=
    hshown hgiven value (hcheck.of_quiet hgiven hrunning hquiet)

/-- What the check decides is known too. -/
theorem and_decides {more : Prop} {view : α → γ} {holds : γ → Prop}
    (hcheck : Ensures given check shown) (hdecides : Decides more view check holds)
    (hmore : given → more) : Ensures given check fun value => shown value ∧ holds (view value) where
  reporting := hcheck.reporting
  of_quiet := by
    intro hgiven pass hrunning value hquiet
    have hholds := hdecides.holds_of_quiet (hmore hgiven) hrunning hquiet
    exact ⟨hcheck.of_quiet hgiven hrunning hquiet, hholds⟩

end Ensures

end CheckM

namespace Typing

open CheckM

variable {site : Site} {locals : Scopes Ty} {given : Prop}

/-! ## Expressions -/

/-- The expression has a type that exists, which is `void` only if it is a call. -/
def Typed (hierarchy : Hierarchy) (node : Expr) : Prop :=
  ∃ type, node.ty = some type ∧ type.errorFree = true ∧
    hierarchy.validType node.form.isCall type = true

/-- The types of local variables can be relied on. -/
structure Site.Trusts (site : Site) (locals : Scopes Ty) : Prop where
  errorFree : locals.ErrorFree
  types : locals.TypesExist site.hierarchy

/-- A scope more does not change what is known of the variables. -/
theorem Site.Trusts.enter (hlocals : site.Trusts locals) : site.Trusts locals.enter :=
  ⟨hlocals.errorFree, hlocals.types⟩

/-- A check that is quiet gives every expression the type that the rules tell, and that
exists. -/
def Survey.ensures (hsite : site.Sound) : Survey site where
  Holds := Ensures
  Allowed _ := True
  MayWrite type := type.errorFree = true
  Fits := site.Trusts
  Good := Typed site.hierarchy
  pure := .pure
  bind := .bind
  rule hcheck := .rule hcheck.reporting
  node {given locals form line slot} hlocals hwritten hform := by
    apply (hform.and_decides (formDecided hsite.errorFree form hwritten line) fun hgiven =>
      (hlocals hgiven).errorFree).bind
    intro result
    apply (Ensures.unlessStopped slot (some result.2)).bind
    intro type
    apply Ensures.pure
    rintro ⟨⟨hgiven, ⟨hcall, hparts⟩, htype⟩, rfl⟩
    have hfree := htype.errorFree hsite.errorFree (hlocals hgiven).errorFree hwritten
    have hvalid := htype.valid hsite (hlocals hgiven).types
    rw [← hcall] at hvalid
    exact List.forall_mem_cons.mpr ⟨⟨result.2, rfl, hfree, hvalid⟩, hparts⟩

/-! ## Statements -/

theorem StmtOk.trusts {returns : Ty} {inLoop : Bool} {after : Scopes Ty} {stmt : Stmt}
    (hstmt : StmtOk site returns inLoop locals stmt after)
    (hwritten : ∀ written ∈ stmt.writtenTypes, written.errorFree = true)
    (hlocals : site.Trusts locals) : site.Trusts after :=
  ⟨hstmt.errorFree hwritten hlocals.errorFree, hstmt.typesExist hlocals.types⟩

/-- The same for statements. The rules tell which variables a statement leaves behind. -/
def StmtSurvey.ensures (hsite : site.Sound) {returns : Ty}
    (hreturns : site.hierarchy.validType true returns = true) : StmtSurvey site where
  toSurvey := .ensures hsite
  returns := returns
  enter := Site.Trusts.enter
  leaves {given loops locals stmt shown} hlocals hwritten hcheck := by
    have hdecides := stmtDecides hsite.errorFree hreturns stmt hwritten loops _ rfl locals
    apply (hcheck.and_decides hdecides fun hgiven => (hlocals hgiven).errorFree).of_shown
    rintro hgiven result ⟨hshown, hstmt⟩
    exact ⟨hshown, hstmt.trusts hwritten (hlocals hgiven)⟩
  closes {given loops locals stmt shown} hlocals hwritten hcheck := by
    have hdecides := stmtDecides hsite.errorFree hreturns stmt hwritten loops _ rfl locals.enter
    apply (hcheck.and_decides hdecides fun hgiven => (hlocals hgiven).errorFree).of_shown
    rintro hgiven result ⟨hshown, hstmt⟩
    rw [Scopes.leave_of_outer_eq hstmt.outer_eq]
    exact ⟨hshown, hlocals hgiven⟩

/-! ## Members and classes -/

theorem ensures_checkField (hsite : site.Sound) {field : FieldDecl}
    (hwritten : ∀ written ∈ Expr.optWrittenTypes field.init, written.errorFree = true) :
    Ensures given (checkField site field) fun result =>
      ∀ node ∈ Expr.optNodes result.init, Typed site.hierarchy node := by
  have hempty : site.Trusts {} := ⟨nofun, nofun⟩
  apply ((Survey.ensures hsite).ofOptExpr (fun _ => hempty) (fun _ _ => Site.allowsRules_true)
    hwritten).bind
  intro result
  have hrule := Site.confined_checkFieldInit (@Site.allowsRules_true site field.line) result.2
  exact (Ensures.rule hrule.reporting).bind fun _ => .pure fun ⟨⟨_, hinit⟩, _⟩ => hinit

theorem ensures_checkMethod (hsite : site.Sound) {method : MethodDecl}
    (hreturns : site.hierarchy.validType true method.returnType = true)
    (hparams : ∀ param ∈ method.params, site.hierarchy.validType false param.type = true)
    (hwritten : ∀ written ∈ (Member.method method).writtenTypes, written.errorFree = true) :
    Ensures given (checkMethod site method) fun result =>
      ∀ node ∈ Stmt.listNodes result.body, Typed site.hierarchy node := by
  simp only [Member.writtenTypes, List.cons_append, List.forall_mem_cons, List.forall_mem_append,
    List.forall_mem_map] at hwritten
  have hscopes : site.Trusts (paramScopes method.params) :=
    ⟨all_paramScopes hwritten.2.1, all_paramScopes hparams⟩
  apply (Ensures.of_decides (decides_declareParams method hparams _)).bind
  intro locals
  apply ((StmtSurvey.ensures hsite hreturns).ofStmts ?_ 0 method.body (fun _ _ _ => trivial)
    hwritten.2.2).bind
  · intro result
    exact .pure And.right
  · rintro ⟨_, _, _, rfl⟩
    exact hscopes

theorem ensures_checkMember (hsite : site.Sound) {decl : ClassDecl}
    (hheads : site.hierarchy.HeadsValid decl)
    (hwritten : ∀ written ∈ decl.writtenTypes, written.errorFree = true) {member : Member}
    (hmember : member ∈ decl.members) :
    Ensures given (checkMember site member) fun result =>
      ∀ node ∈ result.nodes, Typed site.hierarchy node := by
  have hmemberWritten (written : Ty) (hmem : written ∈ member.writtenTypes) :
      written.errorFree = true :=
    hwritten written (List.mem_flatMap.mpr ⟨member, hmember, hmem⟩)
  cases member with
  | field field =>
      have hinit := (List.forall_mem_cons.mp hmemberWritten).2
      exact (ensures_checkField hsite hinit).bind fun _ => .pure And.right
  | method method =>
      have hmethod : method ∈ decl.methods := List.mem_filterMap.mpr ⟨_, hmember, rfl⟩
      exact (ensures_checkMethod hsite (hheads.returns method hmethod)
        (hheads.params method hmethod) hmemberWritten).bind fun _ => .pure And.right

variable {hierarchy : Hierarchy}

theorem ensures_checkClass {decl : ClassDecl}
    (hmembers : isChecked hierarchy decl = true → ∀ member ∈ decl.members,
      Ensures given (checkMember ⟨hierarchy, decl.name, decl.file⟩ member) fun result =>
        ∀ node ∈ result.nodes, Typed hierarchy node)
    (hrest : isChecked hierarchy decl = false → decl.nodes = []) :
    Ensures given (checkClass hierarchy decl) fun result =>
      ∀ node ∈ result.nodes, Typed hierarchy node := by
  rw [checkClass]
  cases hchecked : isChecked hierarchy decl with
  | true =>
      apply (Ensures.mapM (hmembers hchecked)).bind
      intro members
      exact .pure fun h => List.forall_mem_flatMap.mpr h.2
  | false =>
      rw [if_neg Bool.false_ne_true]
      apply Ensures.pure
      intro _ node hnode
      rw [hrest hchecked] at hnode
      exact absurd hnode List.not_mem_nil

/-- Every expression of a checked program gets a type that exists. -/
theorem ensures_checkProgram {program : Program}
    (huser : ∀ decl ∈ program.classes, decl.isBuiltin = false)
    (hwritten : ∀ written ∈ program.writtenTypes, written.errorFree = true)
    (hprepared : hierarchy.Prepared program) (htypes : hierarchy.TypesExist) :
    Ensures given (checkProgram hierarchy program.withBuiltins) fun result =>
      ∀ decl ∈ result.classes, ∀ node ∈ decl.nodes, Typed hierarchy node := by
  have hclass : ∀ decl ∈ program.withBuiltins.classes, Ensures given (checkClass hierarchy decl)
      fun result => ∀ node ∈ result.nodes, Typed hierarchy node := by
    intro decl hdecl
    have hchecked := isChecked_iff huser hprepared hdecl
    apply ensures_checkClass
    · intro hmember member
      rw [hchecked] at hmember
      obtain ⟨info, hget, _⟩ := hprepared.describes decl hmember
      have hsite : Site.Sound ⟨hierarchy, decl.name, decl.file⟩ :=
        ⟨hprepared.errorFree, htypes, by rw [Hierarchy.contains, hget]; rfl⟩
      exact ensures_checkMember hsite (hprepared.heads decl hmember) fun written hmem =>
        hwritten written (List.mem_flatMap.mpr ⟨decl, hmember, hmem⟩)
    · intro hother
      rw [Hierarchy.classes_withBuiltins huser, List.mem_append, ← hchecked, hother] at hdecl
      have hnone : Builtin.classes.flatMap ClassDecl.nodes = [] := rfl
      exact List.flatMap_eq_nil_iff.mp hnone decl (hdecl.resolve_left Bool.false_ne_true)
  exact (Ensures.mapM hclass).bind fun _ => .pure And.right

end Typing

end ClassLang
