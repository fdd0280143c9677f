/-
# The error type causes no diagnostic

Where a check finds nothing to report, it finds nothing to report either if less is known
of the local variables: if some of them have the error type instead of their own. The
types that it writes are then the same or the error type. Each expression and each
statement is put together from rules that tolerate the error type.
-/

import ClassLang.Proofs.Typing.Blurring
import ClassLang.Proofs.Typing.Programs

namespace ClassLang.Typing

open CheckM

/-- The second annotation is the first one or the error type. -/
def Annotation.Blurs (first second : Option Ty) : Prop :=
  second = first ∨ second = some .error

/-- Annotations of the same expressions, where those of the second list are blurred. -/
abbrev Annotations.Blur (first second : List (Option Ty)) : Prop :=
  List.Forall₂ Annotation.Blurs first second

theorem Annotation.blurs_of_ty {first second : Ty} (htype : first.Blurs second) :
    Annotation.Blurs (some first) (some second) := by
  rcases htype with rfl | rfl
  · exact .inl rfl
  · exact .inr rfl

theorem Annotations.Blur.append {first second more others : List (Option Ty)}
    (hfirst : Annotations.Blur first second) (hmore : Annotations.Blur more others) :
    Annotations.Blur (first ++ more) (second ++ others) :=
  List.rel_append hfirst hmore

variable {site : Site} {locals blurred : Scopes Ty} {given : Prop}

/-! ## Expressions -/

mutual

theorem tolerates_checkExpr {given : Prop} (hlocals : given → locals.Blurs blurred) :
    (expr : Expr) →
      Tolerates given (checkExpr site locals expr) (checkExpr site blurred expr)
        fun result other =>
          Annotations.Blur result.1.annotations other.1.annotations ∧ result.2.Blurs other.2
  | .node form line _ =>
    (tolerates_checkForm hlocals line form).bind fun _ _ =>
      (Tolerates.unlessStopped fun ⟨_, _, htype⟩ => Annotation.blurs_of_ty htype).bind fun _ _ =>
        .pure fun ⟨⟨_, hparts, htype⟩, hslot⟩ => ⟨.cons hslot hparts, htype⟩

theorem tolerates_checkForm {given : Prop} (hlocals : given → locals.Blurs blurred)
    (line : Nat) : (form : Form) →
      Tolerates given (checkForm site locals line form) (checkForm site blurred line form)
        fun result other =>
          Annotations.Blur result.1.annotations other.1.annotations ∧ result.2.Blurs other.2
  | .call method args =>
    (tolerates_checkExprs hlocals args).bind fun _ _ =>
      (Site.tolerates_callType site.className method fun ⟨_, _, htypes⟩ => htypes).bind fun _ _ =>
        .pure fun ⟨⟨_, hargs, _⟩, hfound⟩ => ⟨hargs, hfound⟩
  | .callOn receiver method args =>
    (tolerates_checkExpr hlocals receiver).bind fun _ _ =>
      (Site.tolerates_receiverClass (fun ⟨_, _, htype⟩ => htype) method).bind fun _ _ =>
        (tolerates_checkExprs (fun ⟨⟨hgiven, _⟩, _⟩ => hlocals hgiven) args).bind fun _ _ =>
          (Site.tolerates_callTypeOn method (fun ⟨⟨_, hclass⟩, _⟩ => hclass)
            fun ⟨_, _, htypes⟩ => htypes).bind fun _ _ =>
            .pure fun ⟨⟨⟨⟨_, hreceiver, _⟩, _⟩, hargs, _⟩, hfound⟩ =>
              ⟨hreceiver.append hargs, hfound⟩
  | .new className =>
    .bind_same (Site.agree_newType (.refl _) className) fun _ => .pure fun _ => ⟨.nil, .refl _⟩
  | .newArray elem size =>
    (tolerates_checkExpr hlocals size).bind fun _ _ =>
      (Site.tolerates_newArrayType (fun ⟨_, _, htype⟩ => htype) elem).bind fun _ _ =>
        .pure fun ⟨⟨_, hsize, _⟩, hfound⟩ => ⟨hsize, hfound⟩
  | .instanceOf subject target =>
    (tolerates_checkExpr hlocals subject).bind fun _ _ =>
      (Site.tolerates_instanceOfType (fun ⟨_, _, htype⟩ => htype) target).bind fun _ _ =>
        .pure fun ⟨⟨_, hsubject, _⟩, hfound⟩ => ⟨hsubject, hfound⟩
  | .cast target subject =>
    (tolerates_checkExpr hlocals subject).bind fun _ _ =>
      (Site.tolerates_castType (fun ⟨_, _, htype⟩ => htype) target).bind fun _ _ =>
        .pure fun ⟨⟨_, hsubject, _⟩, hfound⟩ => ⟨hsubject, hfound⟩
  | .assign qualifier name value =>
    (Site.tolerates_targetType hlocals qualifier name).bind fun _ _ =>
      (tolerates_checkExpr (fun ⟨hgiven, _⟩ => hlocals hgiven) value).bind fun _ _ =>
        (Site.tolerates_requireCompatible _ (fun ⟨⟨_, htarget⟩, _⟩ => htarget)
          fun ⟨_, _, htype⟩ => htype).bind_rule fun _ _ =>
          .pure fun ⟨⟨_, htarget⟩, hvalue, _⟩ => ⟨hvalue, htarget⟩
  | .assignElem qualifier name index value =>
    (Site.tolerates_targetType hlocals qualifier name).bind fun _ _ =>
      (tolerates_checkExpr (fun ⟨hgiven, _⟩ => hlocals hgiven) index).bind fun _ _ =>
        (Site.tolerates_requireInt (fun ⟨_, _, htype⟩ => htype) .arrayIndex).bind_rule fun _ _ =>
          (tolerates_checkExpr (fun ⟨⟨hgiven, _⟩, _⟩ => hlocals hgiven) value).bind fun _ _ =>
            (Site.tolerates_elemType (fun ⟨⟨⟨_, htarget⟩, _⟩, _⟩ => htarget) name).bind fun _ _ =>
              (Site.tolerates_requireCompatible _ (fun ⟨_, helem⟩ => helem)
                fun ⟨⟨_, _, htype⟩, _⟩ => htype).bind_rule fun _ _ =>
                .pure fun ⟨⟨⟨_, hindex, _⟩, hvalue, _⟩, helem⟩ => ⟨hindex.append hvalue, helem⟩
  | .binary op left right =>
    (tolerates_checkExpr hlocals left).bind fun _ _ =>
      (tolerates_checkExpr (fun ⟨hgiven, _⟩ => hlocals hgiven) right).bind fun _ _ =>
        (Site.tolerates_binaryType op (fun ⟨⟨_, _, hleft⟩, _⟩ => hleft)
          fun ⟨_, _, hright⟩ => hright).bind fun _ _ =>
          .pure fun ⟨⟨⟨_, hleft, _⟩, hright, _⟩, hfound⟩ => ⟨hleft.append hright, hfound⟩
  | .unary op operand =>
    (tolerates_checkExpr hlocals operand).bind fun _ _ =>
      (Site.tolerates_unaryType (fun ⟨_, _, htype⟩ => htype) op operand.isPlace).bind fun _ _ =>
        .pure fun ⟨⟨_, hoperand, _⟩, hfound⟩ => ⟨hoperand, hfound⟩
  | .var name =>
    (Site.tolerates_nameType hlocals name).bind fun _ _ => .pure fun ⟨_, hfound⟩ => ⟨.nil, hfound⟩
  | .field object name =>
    (tolerates_checkExpr hlocals object).bind fun _ _ =>
      (Site.tolerates_accessType (fun ⟨_, _, htype⟩ => htype) name).bind fun _ _ =>
        .pure fun ⟨⟨_, hobject, _⟩, hfound⟩ => ⟨hobject, hfound⟩
  | .elem name index =>
    (Site.tolerates_nameType hlocals name).bind fun _ _ =>
      (tolerates_checkExpr (fun ⟨hgiven, _⟩ => hlocals hgiven) index).bind fun _ _ =>
        (Site.tolerates_requireInt (fun ⟨_, _, htype⟩ => htype) .arrayIndex).bind_rule fun _ _ =>
          (Site.tolerates_elemType (fun ⟨⟨_, harray⟩, _⟩ => harray) name).bind fun _ _ =>
            .pure fun ⟨⟨_, hindex, _⟩, hfound⟩ => ⟨hindex, hfound⟩
  | .fieldElem object name index =>
    (tolerates_checkExpr hlocals object).bind fun _ _ =>
      (Site.tolerates_accessType (fun ⟨_, _, htype⟩ => htype) name).bind fun _ _ =>
        (tolerates_checkExpr (fun ⟨⟨hgiven, _⟩, _⟩ => hlocals hgiven) index).bind fun _ _ =>
          (Site.tolerates_requireInt (fun ⟨_, _, htype⟩ => htype) .arrayIndex).bind_rule fun _ _ =>
            (Site.tolerates_elemType (fun ⟨⟨_, harray⟩, _⟩ => harray) name).bind fun _ _ =>
              .pure fun ⟨⟨⟨⟨_, hobject, _⟩, _⟩, hindex, _⟩, hfound⟩ =>
                ⟨hobject.append hindex, hfound⟩
  | .int _ | .bool _ | .str _ | .null => .pure fun _ => ⟨.nil, .refl _⟩

theorem tolerates_checkExprs {given : Prop} (hlocals : given → locals.Blurs blurred) :
    (exprs : List Expr) →
      Tolerates given (checkExprs site locals exprs) (checkExprs site blurred exprs)
        fun result other =>
          Annotations.Blur (Expr.listAnnotations result.1) (Expr.listAnnotations other.1) ∧
            List.Forall₂ Ty.Blurs result.2 other.2
  | [] => .pure fun _ => ⟨.nil, .nil⟩
  | expr :: exprs =>
    (tolerates_checkExpr hlocals expr).bind fun _ _ =>
      (tolerates_checkExprs (fun ⟨hgiven, _⟩ => hlocals hgiven) exprs).bind fun _ _ =>
        .pure fun ⟨⟨_, hexpr, htype⟩, hexprs, htypes⟩ =>
          ⟨hexpr.append hexprs, .cons htype htypes⟩

end

/-! ## Statements -/

theorem tolerates_checkOptExpr (hlocals : given → locals.Blurs blurred) (expr : Option Expr) :
    Tolerates given (checkOptExpr site locals expr) (checkOptExpr site blurred expr)
      fun result other =>
        Annotations.Blur (Expr.optAnnotations result.1) (Expr.optAnnotations other.1) ∧
          Option.Rel Ty.Blurs result.2 other.2 := by
  cases expr with
  | none => exact .pure fun _ => ⟨.nil, .none⟩
  | some expr =>
      exact (tolerates_checkExpr hlocals expr).bind fun _ _ =>
        .pure fun ⟨_, hexpr, htype⟩ => ⟨hexpr, .some htype⟩

theorem tolerates_checkReturn (hlocals : given → locals.Blurs blurred) (returns : Option Ty)
    (line : Nat) (value : Option Expr) :
    Tolerates given (checkReturn site returns locals line value)
      (checkReturn site returns blurred line value) fun result other =>
        Annotations.Blur (Expr.optAnnotations result) (Expr.optAnnotations other) := by
  cases returns with
  | none => exact .of_report _ fun _ => .pure _
  | some returns =>
      exact (tolerates_checkOptExpr hlocals value).bind fun _ _ =>
        (Site.tolerates_requireResult fun ⟨_, _, htype⟩ => htype).bind_rule fun _ _ =>
          .pure fun ⟨_, hvalue, _⟩ => hvalue

mutual

theorem tolerates_checkStmt {given : Prop} {locals blurred : Scopes Ty}
    (hlocals : given → locals.Blurs blurred) (returns : Option Ty) (loops : Nat) : (stmt : Stmt) →
      Tolerates given (checkStmt site returns loops locals stmt)
        (checkStmt site returns loops blurred stmt) fun result other =>
          Annotations.Blur result.1.annotations other.1.annotations ∧ result.2.Blurs other.2
  | .expr subject =>
    (tolerates_checkExpr hlocals subject).bind fun _ _ =>
      .pure fun ⟨hgiven, hsubject, _⟩ => ⟨hsubject, hlocals hgiven⟩
  | .decl name type init line =>
    .bind_same (Site.agree_writtenType (.refl _) _ type) fun declared =>
      (tolerates_checkOptExpr hlocals init).bind fun _ _ =>
        (Site.tolerates_requireInit _ fun ⟨_, _, htype⟩ => htype).bind_rule fun _ _ =>
          (tolerates_declareLocal (fun ⟨hgiven, _⟩ => hlocals hgiven) line name declared).bind
            fun _ _ => .pure fun ⟨⟨_, hinit, _⟩, hafter⟩ => ⟨hinit, hafter⟩
  | .ret value _ =>
    (tolerates_checkReturn hlocals returns _ value).bind fun _ _ =>
      .pure fun ⟨hgiven, hvalue⟩ => ⟨hvalue, hlocals hgiven⟩
  | .ifThen cond body _ =>
    (tolerates_checkExpr hlocals cond).bind fun _ _ =>
      (Site.tolerates_requireBoolean (fun ⟨_, _, htype⟩ => htype) .ifStatement).bind_rule fun _ _ =>
        (tolerates_checkStmt (fun ⟨hgiven, _⟩ => (hlocals hgiven).enter) returns loops body).bind
          fun _ _ => .pure fun ⟨⟨_, hcond, _⟩, hbody, hafter⟩ => ⟨hcond.append hbody, hafter.leave⟩
  | .ifElse cond body other _ =>
    (tolerates_checkExpr hlocals cond).bind fun _ _ =>
      (Site.tolerates_requireBoolean (fun ⟨_, _, htype⟩ => htype) .ifStatement).bind_rule fun _ _ =>
        (tolerates_checkStmt (fun ⟨hgiven, _⟩ => (hlocals hgiven).enter) returns loops body).bind
          fun _ _ => (tolerates_checkStmt (fun ⟨_, _, hmiddle⟩ => hmiddle.leave.enter) returns loops
            other).bind fun _ _ =>
            .pure fun ⟨⟨⟨_, hcond, _⟩, hbody, _⟩, hother, hafter⟩ =>
              ⟨(hcond.append hbody).append hother, hafter.leave⟩
  | .whileLoop cond body _ =>
    (tolerates_checkExpr hlocals cond).bind fun _ _ =>
      (Site.tolerates_requireBoolean (fun ⟨_, _, htype⟩ => htype) .whileStatement).bind_rule
        fun _ _ => (tolerates_checkStmt (fun ⟨hgiven, _⟩ => (hlocals hgiven).enter) returns
          (loops + 1) body).bind fun _ _ =>
          .pure fun ⟨⟨_, hcond, _⟩, hbody, hafter⟩ => ⟨hcond.append hbody, hafter.leave⟩
  | .forLoop init cond update body _ =>
    (tolerates_checkOptExpr hlocals init).bind fun _ _ =>
      (tolerates_checkOptExpr (fun ⟨hgiven, _⟩ => hlocals hgiven) cond).bind fun _ _ =>
        (Site.tolerates_requirePredicate .forStatement fun ⟨_, _, htype⟩ => htype).bind_rule
          fun _ _ => (tolerates_checkOptExpr (fun ⟨⟨hgiven, _⟩, _⟩ => hlocals hgiven) update).bind
            fun _ _ => (tolerates_checkStmt (fun ⟨⟨⟨hgiven, _⟩, _⟩, _⟩ => (hlocals hgiven).enter)
              returns (loops + 1) body).bind fun _ _ =>
              .pure fun ⟨⟨⟨⟨_, hinit, _⟩, hcond, _⟩, hupdate, _⟩, hbody, hafter⟩ =>
                ⟨((hinit.append hcond).append hupdate).append hbody, hafter.leave⟩
  | .block body _ =>
    (tolerates_checkStmts (fun hgiven => (hlocals hgiven).enter) returns loops body).bind fun _ _ =>
      .pure fun ⟨_, hbody, hafter⟩ => ⟨hbody, hafter.leave⟩
  | .breakLoop _ =>
    .bind_same (@Site.agree_require site site.hierarchy _ _ _) fun _ =>
      .pure fun hgiven => ⟨.nil, hlocals hgiven⟩

theorem tolerates_checkStmts {given : Prop} {locals blurred : Scopes Ty}
    (hlocals : given → locals.Blurs blurred) (returns : Option Ty) (loops : Nat) :
    (stmts : List Stmt) →
      Tolerates given (checkStmts site returns loops locals stmts)
        (checkStmts site returns loops blurred stmts) fun result other =>
          Annotations.Blur (Stmt.listAnnotations result.1) (Stmt.listAnnotations other.1) ∧
            result.2.Blurs other.2
  | [] => .pure fun hgiven => ⟨.nil, hlocals hgiven⟩
  | stmt :: stmts =>
    (tolerates_checkStmt hlocals returns loops stmt).bind fun _ _ =>
      (tolerates_checkStmts (fun ⟨_, _, hmiddle⟩ => hmiddle) returns loops stmts).bind fun _ _ =>
        .pure fun ⟨⟨_, hstmt, _⟩, hstmts, hafter⟩ => ⟨hstmt.append hstmts, hafter⟩

end

/-! ## What is reported -/

/-- Where the first check reports nothing, neither does the second, and its annotations
are those of the first or the error type. -/
def StaysSilent {α : Type} (annotations : α → List (Option Ty)) (first second : CheckM α) : Prop :=
  ∀ log : Log, (first.runOn log).2.log = log →
    (second.runOn log).2.log = log ∧
      Annotations.Blur (annotations (first.runOn log).1) (annotations (second.runOn log).1)

/-- Statements and expressions that are without a diagnostic stay so when the types of
local variables are replaced by the error type. -/
theorem staysSilent_of_blurs (site : Site) (returns : Option Ty) (loops : Nat)
    {locals blurred : Scopes Ty} (hlocals : locals.Blurs blurred) :
    (∀ stmts, StaysSilent (fun result => Stmt.listAnnotations result.1)
      (checkStmts site returns loops locals stmts)
      (checkStmts site returns loops blurred stmts)) ∧
    ∀ expr, StaysSilent (fun result => result.1.annotations)
      (checkExpr site locals expr) (checkExpr site blurred expr) := by
  constructor
  · intro stmts log hlog
    obtain ⟨hsame, htypes, _⟩ :=
      (tolerates_checkStmts (fun _ => hlocals) returns loops stmts).of_log trivial hlog
    exact ⟨hsame, htypes⟩
  · intro expr log hlog
    obtain ⟨hsame, htypes, _⟩ := (tolerates_checkExpr (fun _ => hlocals) expr).of_log trivial hlog
    exact ⟨hsame, htypes⟩

/-- Statements about a stack and a number. -/
def pushing : List Stmt :=
  [.decl "next" (.named "Stack") (some (.unchecked 3 (.callOn (.unchecked 3 (.var "stack")) "push"
      [.unchecked 3 (.binary .add (.unchecked 3 (.var "count")) (.unchecked 3 (.int 1)))]))) 3,
    .ifThen (.unchecked 4 (.binary .ne (.unchecked 4 (.var "next")) (.unchecked 4 (.var "stack"))))
      (.expr (.unchecked 4 (.assign none "count" (.unchecked 4 (.field (.unchecked 4
        (.field (.unchecked 4 (.var "stack")) "items")) "length"))))) 4]

/-- Local variables for them, with a given type for the stack. -/
def pushingLocals (type : Ty) : Scopes Ty :=
  { inner := [("stack", type), ("count", .int)] }

/-- Nothing is reported for them, also if the type of the stack is not known. -/
theorem staysSilent_pushing :
    (pushingLocals (.named "Stack")).Blurs (pushingLocals .error) ∧
      ((checkStmts ⟨stackClasses, "Main", "main"⟩ (some .void) 0 (pushingLocals (.named "Stack"))
        pushing).runOn { limit := 9 }).2.log = { limit := 9 } ∧
      ((checkStmts ⟨stackClasses, "Main", "main"⟩ (some .void) 0 (pushingLocals .error)
        pushing).runOn { limit := 9 }).2.log = { limit := 9 } := by
  have hblurs : (pushingLocals (.named "Stack")).Blurs (pushingLocals .error) := by
    refine ⟨fun name => ?_, .nil⟩
    simp only [pushingLocals, List.lookup_cons]
    split
    · exact .some (.error _)
    · split
      · exact .some (.refl _)
      · exact .none
  have hsilent : ((checkStmts ⟨stackClasses, "Main", "main"⟩ (some .void) 0
      (pushingLocals (.named "Stack")) pushing).runOn { limit := 9 }).2.log = { limit := 9 } := by
    decide +kernel
  exact ⟨hblurs, hsilent, ((staysSilent_of_blurs _ (some .void) 0 hblurs).1 pushing _ hsilent).1⟩

end ClassLang.Typing
