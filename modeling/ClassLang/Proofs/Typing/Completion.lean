/-
# Checks that run to the end

A check that is not stopped has come to every expression and has written a type into it,
whatever it has reported on the way. A type that could not be found is the error type, and
it is written too.
-/

import ClassLang.Proofs.Typing.Traversal

namespace ClassLang

/-! ## Passes that are still running -/

namespace CheckM

variable {α β : Type} {given : Prop}

/-- A pass that is still running after the check was running before it, and for what is given
the result is as shown. -/
def Completes (given : Prop) (check : CheckM α) (shown : α → Prop) : Prop :=
  ∀ pass, (check.run pass).2.stopped = false →
    pass.stopped = false ∧ (given → shown (check.run pass).1)

namespace Completes

variable {check : CheckM α} {next : α → CheckM β} {shown : α → Prop} {after : β → Prop}

theorem pure {value : α} (hvalue : given → shown value) :
    Completes given (Pure.pure value) shown :=
  fun _ hrunning => ⟨hrunning, hvalue⟩

/-- What is shown of the first result can be used for the second: a pass that runs at the
end was running in between. -/
theorem bind (hcheck : Completes given check shown)
    (hnext : ∀ value, Completes (given ∧ shown value) (next value) after) :
    Completes given (check >>= next) after := by
  intro pass hrunning
  obtain ⟨hmiddle, hafter⟩ := hnext (check.run pass).1 (check.run pass).2 hrunning
  obtain ⟨hbefore, hshown⟩ := hcheck pass hmiddle
  exact ⟨hbefore, fun hgiven => hafter ⟨hgiven, hshown hgiven⟩⟩

/-- A rule whose answer does not matter for what is shown. -/
theorem rule (hcheck : Reporting check) : Completes given check fun _ => True := by
  intro pass hrunning
  obtain ⟨records, hrecords⟩ := hcheck pass
  rw [hrecords] at hrunning
  exact ⟨Pass.running_of_reportAll hrunning, fun _ => trivial⟩

theorem unlessStopped (old changed : α) :
    Completes given (CheckM.unlessStopped old changed) (changed = ·) := by
  intro pass hrunning
  have hpass : pass.stopped = false := hrunning
  refine ⟨hpass, fun _ => ?_⟩
  show changed = if pass.stopped = true then old else changed
  rw [hpass, if_neg Bool.false_ne_true]

theorem of_given {more : Prop} (hgiven : more → given) (hcheck : Completes given check shown) :
    Completes more check shown :=
  fun pass hrunning => (hcheck pass hrunning).imp_right fun hshown hmore => hshown (hgiven hmore)

theorem mapM {step : α → CheckM β} (hstep : ∀ value, Completes given (step value) after)
    (values : List α) :
    Completes given (values.mapM step) fun results => ∀ result ∈ results, after result := by
  induction values with
  | nil => exact .pure fun _ => List.forall_mem_nil _
  | cons value values ih =>
      rw [List.mapM_cons]
      apply (hstep value).bind
      intro result
      apply (ih.of_given And.left).bind
      intro results
      exact .pure fun ⟨⟨_, hresult⟩, hresults⟩ => List.forall_mem_cons.mpr ⟨hresult, hresults⟩

end Completes

end CheckM

namespace Typing

open CheckM

/-- A type has been written into each of the expressions. -/
def AllTyped (nodes : List Expr) : Prop :=
  ∀ node ∈ nodes, node.ty.isSome = true

variable {given : Prop}

/-! ## Expressions and statements -/

/-- Every expression that a check has come to the end of has a type written into it. -/
def Survey.completes (site : Site) : Survey site where
  Holds := Completes
  Allowed _ := True
  MayWrite _ := True
  Fits _ := True
  Good node := node.ty.isSome = true
  pure := .pure
  bind := .bind
  rule hcheck := .rule hcheck.reporting
  node _ _ hform :=
    hform.bind fun result => (Completes.unlessStopped _ (some result.2)).bind fun _ =>
      .pure fun ⟨⟨_, _, hparts⟩, hslot⟩ =>
        List.forall_mem_cons.mpr ⟨congrArg Option.isSome hslot.symm, hparts⟩

/-- The same for statements. -/
def StmtSurvey.completes (site : Site) (returns : Ty) : StmtSurvey site where
  toSurvey := .completes site
  returns := returns
  enter _ := trivial
  leaves _ _ hcheck pass hrunning :=
    (hcheck pass hrunning).imp_right fun hshown hgiven => ⟨hshown hgiven, trivial⟩
  closes _ _ hcheck pass hrunning :=
    (hcheck pass hrunning).imp_right fun hshown hgiven => ⟨hshown hgiven, trivial⟩

theorem completes_checkOptExpr (site : Site) (locals : Scopes Ty) (expr : Option Expr) :
    Completes given (checkOptExpr site locals expr) fun result =>
      AllTyped (Expr.optNodes result.1) :=
  (Survey.completes site).ofOptExpr (fun _ => trivial) (fun _ _ => Site.allowsRules_true)
    fun _ _ => trivial

theorem completes_checkStmts (site : Site) (returns : Ty) (loops : Nat) (locals : Scopes Ty)
    (stmts : List Stmt) :
    Completes given (checkStmts site (some returns) loops locals stmts) fun result =>
      AllTyped (Stmt.listNodes result.1) :=
  (StmtSurvey.completes site returns).ofStmts (fun _ => trivial) loops stmts
    (fun _ _ _ => trivial) fun _ _ => trivial

/-! ## Members and classes -/

theorem completes_checkField (site : Site) (field : FieldDecl) :
    Completes given (checkField site field) fun result =>
      AllTyped (Expr.optNodes result.init) := by
  apply (completes_checkOptExpr site {} field.init).bind
  intro result
  have hrule := Site.confined_checkFieldInit (@Site.allowsRules_true site field.line) result.2
  exact (Completes.rule hrule.reporting).bind fun _ => .pure fun ⟨⟨_, hinit⟩, _⟩ => hinit

theorem completes_checkMethod (site : Site) (method : MethodDecl) :
    Completes given (checkMethod site method) fun result =>
      AllTyped (Stmt.listNodes result.body) := by
  have hparams : Confined (fun _ => True)
      (method.params.foldlM (declareParam site method) ({} : Scopes Ty).enter) :=
    .foldlM (fun param _ locals =>
      confined_declareParam method Site.allowsRules_true locals param) _
  apply (Completes.rule hparams.reporting).bind
  intro locals
  apply (completes_checkStmts site method.returnType 0 locals method.body).bind
  intro result
  exact .pure And.right

theorem completes_checkMember (site : Site) (member : Member) :
    Completes given (checkMember site member) fun result => AllTyped result.nodes := by
  cases member with
  | field field => exact (completes_checkField site field).bind fun _ => .pure And.right
  | method method => exact (completes_checkMethod site method).bind fun _ => .pure And.right

/-- A class that is checked to the end has a type in every expression. -/
theorem completes_checkClass (hierarchy : Hierarchy) (decl : ClassDecl) :
    Completes (isChecked hierarchy decl = true) (checkClass hierarchy decl) fun result =>
      AllTyped result.nodes := by
  rw [checkClass]
  cases hchecked : isChecked hierarchy decl with
  | true =>
      apply (Completes.mapM (completes_checkMember ⟨hierarchy, decl.name, decl.file⟩)
        decl.members).bind
      intro members
      exact .pure fun ⟨_, htyped⟩ => List.forall_mem_flatMap.mpr htyped
  | false => exact .pure fun h => absurd h Bool.false_ne_true

end Typing

end ClassLang
