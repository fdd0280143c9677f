/-
# Types written by two runs of the checker

Two runs of the checker on paired passes, one on a piece of a program and one on its
blank, visit the same expressions and find the same types, until the first is stopped.
From then on the first run writes nothing, whatever it finds, and the second may go on.
So a type that the first run writes is written by the second one too, and neither changes
anything else.
-/

import ClassLang.Proofs.Diagnostic.Pairing
import ClassLang.Proofs.Source.Annotation
import ClassLang.Proofs.Typing.Agreement

namespace ClassLang.Typing

open CheckM

variable {α β γ δ : Type} {paired : Pass → Pass → Prop} {apart known : Prop}

/-- Two runs of the check of a piece. Each gives the piece back and something found for
it, which is the same unless the first run is stopped. -/
def Traces [Annotated α] (paired : Pass → Pass → Prop) (apart known : Prop) (piece : α)
    (check other : CheckM (α × β)) : Prop :=
  Follows paired known (fun result later => Traced apart piece result.1 later.1)
    (fun result later => result.2 = later.2) check other

theorem Traces.bind [Annotated α] {piece : α} {check other : CheckM (α × β)}
    {always running : γ → δ → Prop} {next : α × β → CheckM γ} {otherNext : α × β → CheckM δ}
    (hcheck : Traces paired apart known piece check other)
    (hnext : ∀ {new later : α} {found otherFound : β}, Traced apart piece new later →
      Follows paired (known ∧ found = otherFound) always running (next (new, found))
        (otherNext (later, otherFound))) :
    Follows paired known always running (check >>= next) (other >>= otherNext) :=
  Follows.bind hcheck fun _ _ hpiece => hnext hpiece

/-- The place for the type of an expression. -/
theorem follows_unlessStopped (hpairing : Pass.Pairing paired apart) (slot : Option Ty)
    {found otherFound : Ty} (hfound : known → found = otherFound) :
    Follows paired known (Mark apart slot) (fun _ _ => True)
      (CheckM.unlessStopped slot (some found)) (CheckM.unlessStopped none (some otherFound)) := by
  intro first second hpaired hknown
  refine ⟨hpaired, ?_, fun hrun => ⟨hknown hrun, trivial⟩⟩
  show Mark apart slot (if first.stopped = true then slot else some found)
    (if second.stopped = true then none else some otherFound)
  cases hfirst : first.stopped with
  | false =>
      rw [hpairing.running hpaired hfirst, hfound (hknown hfirst)]
      exact .written otherFound
  | true =>
      rw [if_pos rfl]
      cases hsecond : second.stopped with
      | true => exact .kept
      | false => exact .ahead (hpairing.apart hpaired hfirst hsecond) otherFound

/-! ## Expressions

What is known along the way is that both runs have found the same so far. It is kept as
long as the first run goes on, and each step adds its own part to it. After a stop the
rules may be asked about different types in the two runs. -/

mutual

theorem traces_checkExpr (hpairing : Pass.Pairing paired apart) {known : Prop} {site other : Site}
    {locals otherLocals : Scopes Ty} (hsame : known → site = other ∧ locals = otherLocals) :
    (expr : Expr) →
      Traces paired apart known expr (checkExpr site locals expr)
        (checkExpr other otherLocals expr.blank)
  | .node form line slot =>
    (traces_checkForm hpairing hsame line form).bind fun hform =>
      (follows_unlessStopped hpairing slot And.right).bind fun _ _ hmark =>
        .pure ⟨congrArg (Expr.node · line none) hform.shape, .cons hmark hform.marks⟩
          fun ⟨⟨_, htypes⟩, _⟩ => htypes

theorem traces_checkForm (hpairing : Pass.Pairing paired apart) {known : Prop} {site other : Site}
    {locals otherLocals : Scopes Ty} (hsame : known → site = other ∧ locals = otherLocals)
    (line : Nat) : (form : Form) →
      Traces paired apart known form (checkForm site locals line form)
        (checkForm other otherLocals line form.blank)
  | .call method args =>
    (traces_checkExprs hpairing hsame args).bind fun hargs =>
      .bind_rule (.rule hpairing (Site.agree_callType (.refl _) _ _ _)
        (Site.agree_callType (.refl _) _ _ _) fun ⟨h, htypes⟩ => by rw [(hsame h).1, htypes])
        (.pure ⟨congrArg (Form.call method) hargs.shape, hargs.marks⟩ And.right)
  | .callOn receiver method args =>
    (traces_checkExpr hpairing hsame receiver).bind fun hreceiver =>
      .bind_rule (.rule hpairing (Site.agree_receiverClass _ _) (Site.agree_receiverClass _ _)
        fun ⟨h, htype⟩ => by rw [(hsame h).1, htype])
        ((traces_checkExprs hpairing (fun ⟨⟨h, _⟩, _⟩ => hsame h) args).bind fun hargs =>
          .bind_rule (.rule hpairing (Site.agree_callTypeOn (.refl _) _ _ _)
            (Site.agree_callTypeOn (.refl _) _ _ _)
            fun ⟨⟨⟨h, _⟩, hclass⟩, htypes⟩ => by rw [(hsame h).1, hclass, htypes])
            (.pure ⟨congrArg₂ (Form.callOn · method ·) hreceiver.shape hargs.shape,
              hreceiver.marks.append hargs.marks⟩ And.right))
  | .new className =>
    .bind_rule (.rule hpairing (Site.agree_newType (.refl _) _) (Site.agree_newType (.refl _) _)
      fun h => by rw [(hsame h).1]) (.pure ⟨rfl, .nil⟩ And.right)
  | .newArray elem size =>
    (traces_checkExpr hpairing hsame size).bind fun hsize =>
      .bind_rule (.rule hpairing (Site.agree_newArrayType (.refl _) _ _)
        (Site.agree_newArrayType (.refl _) _ _) fun ⟨h, htype⟩ => by rw [(hsame h).1, htype])
        (.pure ⟨congrArg (Form.newArray elem) hsize.shape, hsize.marks⟩ And.right)
  | .instanceOf subject target =>
    (traces_checkExpr hpairing hsame subject).bind fun hsubject =>
      .bind_rule (.rule hpairing (Site.agree_instanceOfType (.refl _) _ _)
        (Site.agree_instanceOfType (.refl _) _ _) fun ⟨h, htype⟩ => by rw [(hsame h).1, htype])
        (.pure ⟨congrArg (Form.instanceOf · target) hsubject.shape, hsubject.marks⟩ And.right)
  | .cast target subject =>
    (traces_checkExpr hpairing hsame subject).bind fun hsubject =>
      .bind_rule (.rule hpairing (Site.agree_castType (.refl _) _ _)
        (Site.agree_castType (.refl _) _ _) fun ⟨h, htype⟩ => by rw [(hsame h).1, htype])
        (.pure ⟨congrArg (Form.cast target) hsubject.shape, hsubject.marks⟩ And.right)
  | .assign qualifier name value =>
    .bind_rule (.rule hpairing (Site.agree_targetType (.refl _) _ _ _)
      (Site.agree_targetType (.refl _) _ _ _) fun h => by rw [(hsame h).1, (hsame h).2])
      ((traces_checkExpr hpairing (fun h => hsame h.1) value).bind fun hvalue =>
        .bind_rule (.rule hpairing (Site.agree_requireCompatible (.refl _) _ _ _)
          (Site.agree_requireCompatible (.refl _) _ _ _)
          fun ⟨⟨h, htarget⟩, htype⟩ => by rw [(hsame h).1, htarget, htype])
          (.pure ⟨congrArg (Form.assign qualifier name) hvalue.shape, hvalue.marks⟩
            fun ⟨⟨⟨_, htarget⟩, _⟩, _⟩ => htarget))
  | .assignElem qualifier name index value =>
    .bind_rule (.rule hpairing (Site.agree_targetType (.refl _) _ _ _)
      (Site.agree_targetType (.refl _) _ _ _) fun h => by rw [(hsame h).1, (hsame h).2])
      ((traces_checkExpr hpairing (fun h => hsame h.1) index).bind fun hindex =>
        .bind_rule (.rule hpairing (Site.agree_require _ _) (Site.agree_require _ _)
          fun ⟨⟨h, _⟩, htype⟩ => by rw [(hsame h).1, htype])
          ((traces_checkExpr hpairing (fun ⟨⟨⟨h, _⟩, _⟩, _⟩ => hsame h) value).bind fun hvalue =>
            .bind_rule (.rule hpairing (Site.agree_elemType _ _) (Site.agree_elemType _ _)
              fun ⟨⟨⟨⟨h, htarget⟩, _⟩, _⟩, _⟩ => by rw [(hsame h).1, htarget])
              (.bind_rule (.rule hpairing (Site.agree_requireCompatible (.refl _) _ _ _)
                (Site.agree_requireCompatible (.refl _) _ _ _)
                fun ⟨⟨⟨⟨⟨h, _⟩, _⟩, _⟩, htype⟩, helem⟩ => by rw [(hsame h).1, htype, helem])
                (.pure ⟨congrArg₂ (Form.assignElem qualifier name) hindex.shape hvalue.shape,
                  hindex.marks.append hvalue.marks⟩ fun ⟨⟨_, helem⟩, _⟩ => helem))))
  | .binary op left right =>
    (traces_checkExpr hpairing hsame left).bind fun hleft =>
      (traces_checkExpr hpairing (fun h => hsame h.1) right).bind fun hright =>
        .bind_rule (.rule hpairing (Site.agree_binaryType (.refl _) _ _ _)
          (Site.agree_binaryType (.refl _) _ _ _)
          fun ⟨⟨h, hleftType⟩, hrightType⟩ => by rw [(hsame h).1, hleftType, hrightType])
          (.pure ⟨congrArg₂ (Form.binary op) hleft.shape hright.shape,
            hleft.marks.append hright.marks⟩ And.right)
  | .unary op operand =>
    (traces_checkExpr hpairing hsame operand).bind fun hoperand =>
      .bind_rule (.rule hpairing (Site.agree_unaryType _ _ _) (Site.agree_unaryType _ _ _)
        fun ⟨h, htype⟩ => by rw [(hsame h).1, htype, Expr.isPlace_blank])
        (.pure ⟨congrArg (Form.unary op) hoperand.shape, hoperand.marks⟩ And.right)
  | .var name =>
    .bind_rule (.rule hpairing (Site.agree_nameType (.refl _) _ _)
      (Site.agree_nameType (.refl _) _ _) fun h => by rw [(hsame h).1, (hsame h).2])
      (.pure ⟨rfl, .nil⟩ And.right)
  | .field object name =>
    (traces_checkExpr hpairing hsame object).bind fun hobject =>
      .bind_rule (.rule hpairing (Site.agree_accessType (.refl _) _ _)
        (Site.agree_accessType (.refl _) _ _) fun ⟨h, htype⟩ => by rw [(hsame h).1, htype])
        (.pure ⟨congrArg (Form.field · name) hobject.shape, hobject.marks⟩ And.right)
  | .elem name index =>
    .bind_rule (.rule hpairing (Site.agree_nameType (.refl _) _ _)
      (Site.agree_nameType (.refl _) _ _) fun h => by rw [(hsame h).1, (hsame h).2])
      ((traces_checkExpr hpairing (fun h => hsame h.1) index).bind fun hindex =>
        .bind_rule (.rule hpairing (Site.agree_require _ _) (Site.agree_require _ _)
          fun ⟨⟨h, _⟩, htype⟩ => by rw [(hsame h).1, htype])
          (.bind_rule (.rule hpairing (Site.agree_elemType _ _) (Site.agree_elemType _ _)
            fun ⟨⟨⟨h, harray⟩, _⟩, _⟩ => by rw [(hsame h).1, harray])
            (.pure ⟨congrArg (Form.elem name) hindex.shape, hindex.marks⟩ And.right)))
  | .fieldElem object name index =>
    (traces_checkExpr hpairing hsame object).bind fun hobject =>
      .bind_rule (.rule hpairing (Site.agree_accessType (.refl _) _ _)
        (Site.agree_accessType (.refl _) _ _) fun ⟨h, htype⟩ => by rw [(hsame h).1, htype])
        ((traces_checkExpr hpairing (fun ⟨⟨h, _⟩, _⟩ => hsame h) index).bind fun hindex =>
          .bind_rule (.rule hpairing (Site.agree_require _ _) (Site.agree_require _ _)
            fun ⟨⟨⟨h, _⟩, _⟩, htype⟩ => by rw [(hsame h).1, htype])
            (.bind_rule (.rule hpairing (Site.agree_elemType _ _) (Site.agree_elemType _ _)
              fun ⟨⟨⟨⟨h, _⟩, harray⟩, _⟩, _⟩ => by rw [(hsame h).1, harray])
              (.pure ⟨congrArg₂ (Form.fieldElem · name ·) hobject.shape hindex.shape,
                hobject.marks.append hindex.marks⟩ And.right)))
  | .int _ | .bool _ | .str _ | .null => .pure ⟨rfl, .nil⟩ fun _ => rfl

theorem traces_checkExprs (hpairing : Pass.Pairing paired apart) {known : Prop} {site other : Site}
    {locals otherLocals : Scopes Ty} (hsame : known → site = other ∧ locals = otherLocals) :
    (exprs : List Expr) →
      Traces paired apart known exprs (checkExprs site locals exprs)
        (checkExprs other otherLocals (Expr.listBlank exprs))
  | [] => .pure ⟨rfl, .nil⟩ fun _ => rfl
  | expr :: exprs =>
    (traces_checkExpr hpairing hsame expr).bind fun hexpr =>
      (traces_checkExprs hpairing (fun h => hsame h.1) exprs).bind fun hexprs =>
        .pure ⟨congrArg₂ List.cons hexpr.shape hexprs.shape, hexpr.marks.append hexprs.marks⟩
          fun ⟨⟨_, htype⟩, htypes⟩ => congrArg₂ List.cons htype htypes

end

/-! ## Statements -/

theorem traces_checkOptExpr (hpairing : Pass.Pairing paired apart) {site other : Site}
    {locals otherLocals : Scopes Ty} (hsame : known → site = other ∧ locals = otherLocals)
    (expr : Option Expr) :
    Traces paired apart known expr (checkOptExpr site locals expr)
      (checkOptExpr other otherLocals (expr.map Expr.blank)) := by
  cases expr with
  | none => exact .pure ⟨rfl, .nil⟩ fun _ => rfl
  | some expr =>
      apply (traces_checkExpr hpairing hsame expr).bind
      intro new later found otherFound hexpr
      exact .pure ⟨congrArg some hexpr.shape, hexpr.marks⟩ fun h => congrArg some h.2

/-- Two runs of the check of a piece that find nothing for it. -/
def Rewrites [Annotated α] (paired : Pass → Pass → Prop) (apart known : Prop) (piece : α)
    (check other : CheckM α) : Prop :=
  Follows paired known (Traced apart piece) (fun _ _ => True) check other

theorem Rewrites.bind [Annotated α] {piece : α} {check other : CheckM α}
    {always running : γ → δ → Prop} {next : α → CheckM γ} {otherNext : α → CheckM δ}
    (hcheck : Rewrites paired apart known piece check other)
    (hnext : ∀ {new later : α}, Traced apart piece new later →
      Follows paired known always running (next new) (otherNext later)) :
    Follows paired known always running (check >>= next) (other >>= otherNext) := by
  apply Follows.bind hcheck
  intro new later hpiece
  rw [and_true]
  exact hnext hpiece

theorem rewrites_checkReturn (hpairing : Pass.Pairing paired apart) {site other : Site}
    {locals otherLocals : Scopes Ty} (hsame : known → site = other ∧ locals = otherLocals)
    (returns : Option Ty) (line : Nat) (value : Option Expr) :
    Rewrites paired apart known value (checkReturn site returns locals line value)
      (checkReturn other returns otherLocals line (value.map Expr.blank)) := by
  cases returns with
  | none =>
      apply Follows.bind_rule (.rule hpairing (.report _) (.report _) ?_)
      · intro _ _
        exact .pure (.kept (Expr.optAnnotations_blank value)) fun _ => trivial
      · intro h
        rw [(hsame h).1]
  | some returns =>
      apply (traces_checkOptExpr hpairing hsame value).bind
      intro new later found otherFound hvalue
      apply Follows.bind_rule (.rule hpairing (Site.agree_requireResult (.refl _) _ _)
        (Site.agree_requireResult (.refl _) _ _) ?_)
      · intro _ _
        exact .pure hvalue fun _ => trivial
      · rintro ⟨h, hfound⟩
        rw [(hsame h).1, hfound]

mutual

theorem traces_checkStmt (hpairing : Pass.Pairing paired apart) {known : Prop} {site other : Site}
    {locals otherLocals : Scopes Ty} (hsame : known → site = other ∧ locals = otherLocals)
    (returns : Option Ty) (loops : Nat) : (stmt : Stmt) →
      Traces paired apart known stmt (checkStmt site returns loops locals stmt)
        (checkStmt other returns loops otherLocals stmt.blank)
  | .expr subject =>
    (traces_checkExpr hpairing hsame subject).bind fun hsubject =>
      .pure ⟨congrArg Stmt.expr hsubject.shape, hsubject.marks⟩ fun h => (hsame h.1).2
  | .decl name type init line =>
    .bind_rule (.rule hpairing (Site.agree_writtenType (.refl _) _ _)
      (Site.agree_writtenType (.refl _) _ _) fun h => by rw [(hsame h).1])
      ((traces_checkOptExpr hpairing (fun h => hsame h.1) init).bind fun hinit =>
        .bind_rule (.rule hpairing (Site.agree_requireInit (.refl _) _ _ _)
          (Site.agree_requireInit (.refl _) _ _ _)
          fun ⟨⟨h, hdeclared⟩, hfound⟩ => by rw [(hsame h).1, hdeclared, hfound])
          (.bind_rule (.rule hpairing (agree_declareLocal _ _ _ _) (agree_declareLocal _ _ _ _)
            fun ⟨⟨⟨h, hdeclared⟩, _⟩, _⟩ => by rw [(hsame h).1, (hsame h).2, hdeclared])
            (.pure ⟨congrArg (Stmt.decl name type · line) hinit.shape, hinit.marks⟩ And.right)))
  | .ret value line =>
    (rewrites_checkReturn hpairing hsame returns line value).bind fun hvalue =>
      .pure ⟨congrArg (Stmt.ret · line) hvalue.shape, hvalue.marks⟩ fun h => (hsame h).2
  | .ifThen cond body line =>
    (traces_checkExpr hpairing hsame cond).bind fun hcond =>
      .bind_rule (.rule hpairing (Site.agree_require _ _) (Site.agree_require _ _)
        fun ⟨h, hfound⟩ => by rw [(hsame h).1, hfound])
        ((traces_checkStmt hpairing (fun ⟨⟨h, _⟩, _⟩ => ⟨(hsame h).1, congrArg Scopes.enter
            (hsame h).2⟩) returns loops body).bind fun hbody =>
          .pure ⟨congrArg₂ (Stmt.ifThen · · line) hcond.shape hbody.shape,
            hcond.marks.append hbody.marks⟩ fun h => congrArg Scopes.leave h.2)
  | .ifElse cond body otherwise line =>
    (traces_checkExpr hpairing hsame cond).bind fun hcond =>
      .bind_rule (.rule hpairing (Site.agree_require _ _) (Site.agree_require _ _)
        fun ⟨h, hfound⟩ => by rw [(hsame h).1, hfound])
        ((traces_checkStmt hpairing (fun ⟨⟨h, _⟩, _⟩ => ⟨(hsame h).1, congrArg Scopes.enter
            (hsame h).2⟩) returns loops body).bind fun hbody =>
          (traces_checkStmt hpairing (fun ⟨⟨⟨h, _⟩, _⟩, hafter⟩ => ⟨(hsame h).1,
            congrArg (fun inner => inner.leave.enter) hafter⟩) returns loops otherwise).bind
              fun hotherwise =>
            .pure ⟨(congrArg₂ (Stmt.ifElse · · _ line) hcond.shape hbody.shape).trans
                (congrArg (Stmt.ifElse _ _ · line) hotherwise.shape),
              (hcond.marks.append hbody.marks).append hotherwise.marks⟩
              fun h => congrArg Scopes.leave h.2)
  | .whileLoop cond body line =>
    (traces_checkExpr hpairing hsame cond).bind fun hcond =>
      .bind_rule (.rule hpairing (Site.agree_require _ _) (Site.agree_require _ _)
        fun ⟨h, hfound⟩ => by rw [(hsame h).1, hfound])
        ((traces_checkStmt hpairing (fun ⟨⟨h, _⟩, _⟩ => ⟨(hsame h).1, congrArg Scopes.enter
            (hsame h).2⟩) returns (loops + 1) body).bind fun hbody =>
          .pure ⟨congrArg₂ (Stmt.whileLoop · · line) hcond.shape hbody.shape,
            hcond.marks.append hbody.marks⟩ fun h => congrArg Scopes.leave h.2)
  | .forLoop init cond update body line =>
    (traces_checkOptExpr hpairing hsame init).bind fun hinit =>
      (traces_checkOptExpr hpairing (fun h => hsame h.1) cond).bind fun hcond =>
        .bind_rule (.rule hpairing (Site.agree_requirePredicate _ _)
          (Site.agree_requirePredicate _ _)
          fun ⟨⟨h, _⟩, hfound⟩ => by rw [(hsame h).1, hfound])
          ((traces_checkOptExpr hpairing (fun ⟨⟨⟨h, _⟩, _⟩, _⟩ => hsame h) update).bind
            fun hupdate =>
            (traces_checkStmt hpairing (fun ⟨⟨⟨⟨h, _⟩, _⟩, _⟩, _⟩ => ⟨(hsame h).1,
              congrArg Scopes.enter (hsame h).2⟩) returns (loops + 1) body).bind fun hbody =>
              .pure ⟨(congrArg₂ (Stmt.forLoop · · _ _ line) hinit.shape hcond.shape).trans
                  (congrArg₂ (Stmt.forLoop _ _ · · line) hupdate.shape hbody.shape),
                ((hinit.marks.append hcond.marks).append hupdate.marks).append hbody.marks⟩
                fun h => congrArg Scopes.leave h.2)
  | .block body line =>
    (traces_checkStmts hpairing (fun h => ⟨(hsame h).1, congrArg Scopes.enter (hsame h).2⟩) returns
      loops body).bind fun hbody =>
      .pure ⟨congrArg (Stmt.block · line) hbody.shape, hbody.marks⟩
        fun h => congrArg Scopes.leave h.2
  | .breakLoop line =>
    .bind_rule (.rule hpairing (Site.agree_require _ _) (Site.agree_require _ _)
      fun h => by rw [(hsame h).1]) (.pure ⟨rfl, .nil⟩ fun h => (hsame h.1).2)

theorem traces_checkStmts (hpairing : Pass.Pairing paired apart) {known : Prop} {site other : Site}
    {locals otherLocals : Scopes Ty} (hsame : known → site = other ∧ locals = otherLocals)
    (returns : Option Ty) (loops : Nat) : (stmts : List Stmt) →
      Traces paired apart known stmts (checkStmts site returns loops locals stmts)
        (checkStmts other returns loops otherLocals (Stmt.listBlank stmts))
  | [] => .pure ⟨rfl, .nil⟩ fun h => (hsame h).2
  | stmt :: stmts =>
    (traces_checkStmt hpairing hsame returns loops stmt).bind fun hstmt =>
      (traces_checkStmts hpairing (fun h => ⟨(hsame h.1).1, h.2⟩) returns loops stmts).bind
        fun hstmts =>
        .pure ⟨congrArg₂ List.cons hstmt.shape hstmts.shape, hstmt.marks.append hstmts.marks⟩
          And.right

end

/-! ## Members and classes -/

theorem rewrites_mapM [Annotated α] {step otherStep : α → CheckM α}
    (hstep : ∀ piece, Rewrites paired apart known piece (step piece)
      (otherStep (Annotated.blank piece))) (pieces : List α) :
    Rewrites paired apart known pieces (pieces.mapM step)
      ((pieces.map Annotated.blank).mapM otherStep) := by
  induction pieces with
  | nil => exact .pure ⟨rfl, .nil⟩ fun _ => trivial
  | cons piece pieces ih =>
      rw [List.map_cons, List.mapM_cons, List.mapM_cons]
      apply (hstep piece).bind
      intro new later hpiece
      apply ih.bind
      intro news laters hpieces
      exact .pure ⟨congrArg₂ List.cons hpiece.shape hpieces.shape,
        hpiece.marks.append hpieces.marks⟩ fun _ => trivial

variable {site other : Site} {hierarchy otherHierarchy : Hierarchy}

theorem rewrites_checkField (hpairing : Pass.Pairing paired apart) (hsame : known → site = other)
    (field : FieldDecl) :
    Rewrites paired apart known field (checkField site field) (checkField other field.blank) := by
  apply Traces.bind (traces_checkOptExpr hpairing (fun h => ⟨hsame h, rfl⟩) field.init)
  intro init laterInit found otherFound hinit
  apply Follows.bind_rule (.rule hpairing (Site.agree_checkFieldInit (.refl _) _ _)
    (Site.agree_checkFieldInit (.refl _) _ _) ?_)
  · intro _ _
    exact .pure ⟨congrArg (fun init => { field with init := init }) hinit.shape, hinit.marks⟩
      fun _ => trivial
  · rintro ⟨h, hfound⟩
    rw [hsame h, hfound]
    cases otherFound <;> rfl

theorem rewrites_checkMethod (hpairing : Pass.Pairing paired apart) (hsame : known → site = other)
    (method : MethodDecl) :
    Rewrites paired apart known method (checkMethod site method)
      (checkMethod other method.blank) := by
  have hparams : Follows paired known (fun _ _ => True) (· = ·)
      (method.params.foldlM (declareParam site method) ({} : Scopes Ty).enter)
      (method.params.foldlM (declareParam other method) ({} : Scopes Ty).enter) := by
    apply Follows.rule hpairing (.foldlM (agree_declareParam (.refl _) method) _ _)
      (.foldlM (agree_declareParam (.refl _) method) _ _)
    intro h
    rw [hsame h]
  apply hparams.bind_rule
  intro locals otherLocals
  apply Traces.bind (traces_checkStmts hpairing (fun h => ⟨hsame h.1, h.2⟩)
    (some method.returnType) 0 method.body)
  intro body laterBody left otherLeft hbody
  exact .pure ⟨congrArg (fun body => { method with body := body }) hbody.shape, hbody.marks⟩
    fun _ => trivial

theorem rewrites_checkMember (hpairing : Pass.Pairing paired apart) (hsame : known → site = other)
    (member : Member) :
    Rewrites paired apart known member (checkMember site member)
      (checkMember other member.blank) := by
  cases member with
  | field field =>
      apply (rewrites_checkField hpairing hsame field).bind
      intro new later hfield
      exact .pure ⟨congrArg Member.field hfield.shape, hfield.marks⟩ fun _ => trivial
  | method method =>
      apply (rewrites_checkMethod hpairing hsame method).bind
      intro new later hmethod
      exact .pure ⟨congrArg Member.method hmethod.shape, hmethod.marks⟩ fun _ => trivial

theorem rewrites_checkClass (hpairing : Pass.Pairing paired apart)
    (hsame : known → hierarchy = otherHierarchy)
    (hchecked : isChecked hierarchy = isChecked otherHierarchy) (decl : ClassDecl) :
    Rewrites paired apart known decl (checkClass hierarchy decl)
      (checkClass otherHierarchy decl.blank) := by
  have hblank : isChecked otherHierarchy decl.blank = isChecked hierarchy decl := by
    rw [hchecked]
    rfl
  rw [checkClass, checkClass, hblank]
  split
  · have hsite : known → Site.mk hierarchy decl.name decl.file =
        Site.mk otherHierarchy decl.name decl.file := fun h => by rw [hsame h]
    apply (rewrites_mapM (rewrites_checkMember hpairing hsite) decl.members).bind
    intro members laterMembers htraced
    exact .pure ⟨congrArg (fun members => { decl with members := members }) htraced.shape,
      htraced.marks⟩ fun _ => trivial
  · exact .pure (.kept decl.annotations_blank) fun _ => trivial

/-- A program is the same after two runs but for the types that both write. -/
theorem rewrites_checkProgram (hpairing : Pass.Pairing paired apart)
    (hsame : known → hierarchy = otherHierarchy)
    (hchecked : isChecked hierarchy = isChecked otherHierarchy) (program : Program) :
    Rewrites paired apart known program (checkProgram hierarchy program)
      (checkProgram otherHierarchy program.blank) := by
  have hclasses := rewrites_mapM (rewrites_checkClass hpairing hsame hchecked) program.classes
  apply hclasses.bind
  intro classes laterClasses htraced
  exact .pure ⟨congrArg Program.mk htraced.shape, htraced.marks⟩ fun _ => trivial

end ClassLang.Typing
