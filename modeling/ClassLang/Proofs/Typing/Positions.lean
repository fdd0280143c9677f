/-
# Where typing reports

The line that a rule is given is that of the expression, the statement or the member that
the rule is about. So the check of a class reports at lines of its declaration only.
-/

import ClassLang.Proofs.Typing.Traversal

namespace ClassLang.Typing

open CheckM

variable {site : Site} {allowed : Diagnostic → Prop}

/-! ## Expressions and statements -/

/-- A check is confined to the records that its rules may report. -/
def Survey.confined (site : Site) (allowed : Diagnostic → Prop) : Survey site where
  Holds _ check _ := Confined allowed check
  Allowed := allowed
  MayWrite _ := True
  Fits _ := True
  Good _ := True
  pure _ := .pure _
  bind hcheck hnext := .bind hcheck hnext
  rule hcheck := hcheck
  node _ _ hform := .bind hform fun _ => .bind (.unlessStopped _ _) fun _ => .pure _

/-- The same for statements. -/
def StmtSurvey.confined (site : Site) (allowed : Diagnostic → Prop) (returns : Ty) :
    StmtSurvey site where
  toSurvey := .confined site allowed
  returns := returns
  enter _ := trivial
  leaves _ _ hcheck := hcheck
  closes _ _ hcheck := hcheck

theorem confined_checkExpr (locals : Scopes Ty) (expr : Expr)
    (hnodes : ∀ node ∈ expr.nodes, site.AllowsRules allowed node.line) :
    Confined allowed (checkExpr site locals expr) :=
  (Survey.confined site allowed).ofExpr (fun _ : True => trivial) expr hnodes fun _ _ => trivial

theorem confined_checkOptExpr (locals : Scopes Ty) {expr : Option Expr}
    (hnodes : ∀ node ∈ Expr.optNodes expr, site.AllowsRules allowed node.line) :
    Confined allowed (checkOptExpr site locals expr) :=
  (Survey.confined site allowed).ofOptExpr (fun _ : True => trivial) hnodes fun _ _ => trivial

theorem confined_checkStmts (returns : Ty) (loops : Nat) (locals : Scopes Ty) (stmts : List Stmt)
    (hlines : ∀ line ∈ Stmt.listLines stmts, site.AllowsAt allowed line) :
    Confined allowed (checkStmts site (some returns) loops locals stmts) :=
  (StmtSurvey.confined site allowed returns).ofStmts (fun _ : True => trivial) loops stmts hlines
    fun _ _ => trivial

/-! ## Programs -/

theorem confined_checkField (field : FieldDecl)
    (hlines : ∀ line ∈ (Member.field field).lines, site.AllowsAt allowed line) :
    Confined allowed (checkField site field) := by
  obtain ⟨hline, hinit⟩ := List.forall_mem_cons.mp hlines
  have hnodes := List.forall_mem_map.mp hinit
  exact .bind (confined_checkOptExpr {} fun node hnode => (hnodes node hnode).rules) fun _ =>
    .bind (Site.confined_checkFieldInit hline.rules _) fun _ => .pure _

theorem confined_checkMethod (method : MethodDecl)
    (hlines : ∀ line ∈ (Member.method method).lines, site.AllowsAt allowed line) :
    Confined allowed (checkMethod site method) := by
  obtain ⟨hline, hbody⟩ := List.forall_mem_cons.mp hlines
  refine .bind (.foldlM (fun param _ locals => ?_) _) fun locals => ?_
  · exact confined_declareParam method hline.rules locals param
  · exact .bind (confined_checkStmts method.returnType 0 locals method.body hbody) fun _ => .pure _

theorem confined_checkMember (member : Member)
    (hlines : ∀ line ∈ member.lines, site.AllowsAt allowed line) :
    Confined allowed (checkMember site member) := by
  cases member with
  | field decl => exact .bind (confined_checkField decl hlines) fun _ => .pure _
  | method decl => exact .bind (confined_checkMethod decl hlines) fun _ => .pure _

/-- The check of a class reports at lines of its declaration, in the file of the
declaration. -/
theorem confined_checkClass (hierarchy : Hierarchy) (decl : ClassDecl)
    (hlines : decl.isBuiltin = false → ∀ line ∈ decl.lines,
      Site.AllowsAt ⟨hierarchy, decl.name, decl.file⟩ allowed line) :
    Confined allowed (checkClass hierarchy decl) := by
  refine .ite (fun hchecked => ?_) fun _ => .pure _
  have huser : decl.isBuiltin = false := by
    simp only [isChecked, Bool.and_eq_true, Bool.not_eq_true'] at hchecked
    exact hchecked.1
  refine .bind (.mapM fun member hmember => confined_checkMember member ?_) fun _ => .pure _
  intro line hline
  exact hlines huser line (List.mem_cons_of_mem _ (List.mem_flatMap_of_mem hmember hline))

theorem confined_checkProgram (hierarchy : Hierarchy) (program : Program)
    (hlines : ∀ decl ∈ program.classes, decl.isBuiltin = false → ∀ line ∈ decl.lines,
      Site.AllowsAt ⟨hierarchy, decl.name, decl.file⟩ allowed line) :
    Confined allowed (checkProgram hierarchy program) :=
  .bind (.mapM fun decl hdecl => confined_checkClass hierarchy decl (hlines decl hdecl)) fun _ =>
    .pure _

end ClassLang.Typing
