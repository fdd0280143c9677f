/-
# Typing against the same classes in another order

The rules ask a hierarchy for types, members and parents, never for the order of its
classes. So a check finds the same types and reports the same with the classes in any
order. There is one lemma for each rule, and the checks of expressions, statements and
members are put together from them.
-/

import ClassLang.Proofs.Hierarchy.Reordering
import ClassLang.Typing.Program

namespace ClassLang.Typing

open CheckM

/-- The same class, checked against another hierarchy. -/
def Site.against (site : Site) (hierarchy : Hierarchy) : Site :=
  { site with hierarchy }

/-! ## Rules on single types -/

namespace Site

variable {site : Site} {other : Hierarchy} {line : Nat}

theorem agree_report (fault : Fault) :
    Agree (site.report line fault) ((site.against other).report line fault) :=
  .report _

theorem agree_require (holds : Bool) (fault : Fault) :
    Agree (site.require holds line fault) ((site.against other).require holds line fault) :=
  .require holds _

theorem agree_report_pure {α : Type} (fault : Fault) (value : α) :
    Agree (site.report line fault >>= fun _ => pure value)
      ((site.against other).report line fault >>= fun _ => pure value) :=
  .bind (agree_report fault) fun _ => .pure value

theorem agree_elemType (name : String) (found : Ty) :
    Agree (site.elemType line name found) ((site.against other).elemType line name found) := by
  cases found with
  | array elem => exact .pure _
  | error => exact .pure _
  | _ => exact agree_report_pure _ _

theorem agree_receiverClass (method : String) (found : Ty) :
    Agree (site.receiverClass line method found)
      ((site.against other).receiverClass line method found) := by
  cases found with
  | named className => exact .pure _
  | array elem => exact .pure _
  | error => exact .pure none
  | _ => exact agree_report_pure _ _

theorem agree_unaryType (op : UnaryOp) (isPlace : Bool) (found : Ty) :
    Agree (site.unaryType line op isPlace found)
      ((site.against other).unaryType line op isPlace found) :=
  .bind (agree_require _ _) fun _ => .bind (agree_require _ _) fun _ => .pure _

section Same

variable (hsame : site.hierarchy.Reordered other)

include hsame

theorem agree_requireCompatible (use : Use) (expected actual : Ty) :
    Agree (site.requireCompatible line use expected actual)
      ((site.against other).requireCompatible line use expected actual) := by
  simp only [requireCompatible, against, hsame.compatible, hsame.validType]
  refine .ite (.pure ()) (.bind (.report _) fun _ => ?_)
  exact .bind (.require _ _) fun _ => .require _ _

theorem agree_writtenType (place : TypePlace) (type : Ty) :
    Agree (site.writtenType line place type)
      ((site.against other).writtenType line place type) := by
  simp only [writtenType, against, hsame.validType]
  exact .ite (.pure type) (.bind (.report _) fun _ => .pure _)

theorem agree_superclass : Agree (site.superclass line) ((site.against other).superclass line) := by
  simp only [superclass, Site.parent?, against, hsame.parent?]
  cases site.hierarchy.parent? site.className with
  | none => exact .bind (.report _) fun _ => .pure none
  | some parent => exact .pure _

theorem agree_fieldType (className name : String) :
    Agree (site.fieldType line className name)
      ((site.against other).fieldType line className name) := by
  simp only [fieldType, against, hsame.field?]
  cases site.hierarchy.field? className name with
  | none => exact .bind (.report _) fun _ => .pure _
  | some type => exact .pure type

theorem agree_variableType (locals : Scopes Ty) (name : String) :
    Agree (site.variableType locals line name)
      ((site.against other).variableType locals line name) := by
  simp only [variableType, against, hsame.field?]
  cases (locals.lookup name).or (site.hierarchy.field? site.className name) with
  | none => exact .bind (.report _) fun _ => .pure _
  | some type => exact .pure type

theorem agree_nameType (locals : Scopes Ty) (name : String) :
    Agree (site.nameType locals line name) ((site.against other).nameType locals line name) := by
  refine .ite (.pure _) (.ite (.bind (agree_superclass hsame) fun parent => ?_)
    (agree_variableType hsame locals name))
  cases parent with
  | none => exact .pure _
  | some parent => exact .pure _

theorem agree_targetType (locals : Scopes Ty) (qualifier : Option String) (name : String) :
    Agree (site.targetType locals line qualifier name)
      ((site.against other).targetType locals line qualifier name) := by
  cases qualifier with
  | none => exact agree_variableType hsame locals name
  | some qualifier =>
      have hcontains : (site.against other).hierarchy.contains = site.hierarchy.contains :=
        hsame.contains
      simp only [targetType, hcontains]
      refine .ite (agree_fieldType hsame site.className name) (.ite ?_ (.ite ?_ ?_))
      · refine .bind (agree_superclass hsame) fun parent => ?_
        cases parent with
        | none => exact .pure _
        | some parent => exact agree_fieldType hsame parent name
      · exact agree_fieldType hsame qualifier name
      · exact agree_report_pure _ _

theorem agree_accessType (name : String) (found : Ty) :
    Agree (site.accessType line name found) ((site.against other).accessType line name found) := by
  cases found with
  | named className => exact agree_fieldType hsame className name
  | error => exact .pure _
  | array elem => exact .ite (.pure _) (agree_report_pure _ _)
  | _ => exact agree_report_pure _ _

theorem agree_checkArguments (method : String) (position : Nat) (params : List Param)
    (args : List Ty) :
    Agree (site.checkArguments line method position params args)
      ((site.against other).checkArguments line method position params args) := by
  induction params generalizing position args with
  | nil => exact .pure ()
  | cons param params ih =>
      cases args with
      | nil => exact .pure ()
      | cons arg args =>
          exact .bind (agree_requireCompatible hsame _ param.type arg) fun _ => ih _ args

theorem agree_callType (className method : String) (args : List Ty) :
    Agree (site.callType line className method args)
      ((site.against other).callType line className method args) := by
  have hmethod : (site.against other).hierarchy.method? = site.hierarchy.method? := hsame.method?
  simp only [callType, hmethod]
  cases site.hierarchy.method? className method with
  | none => exact agree_report_pure _ _
  | some sig =>
      refine .ite (.bind (agree_checkArguments hsame method 1 sig.params args) fun _ => ?_)
        (agree_report_pure _ _)
      exact .pure _

theorem agree_callTypeOn (className : Option String) (method : String) (args : List Ty) :
    Agree (site.callTypeOn line className method args)
      ((site.against other).callTypeOn line className method args) := by
  cases className with
  | none => exact .pure _
  | some className => exact agree_callType hsame className method args

theorem agree_binaryType (op : BinaryOp) (left right : Ty) :
    Agree (site.binaryType line op left right)
      ((site.against other).binaryType line op left right) := by
  have hcomparable : (site.against other).comparable = site.comparable := by
    funext left right
    simp only [comparable, against, hsame.compatible]
  simp only [binaryType, hcomparable]
  refine .ite (.pure _) ?_
  cases op.operandType with
  | none => exact .bind (agree_require _ _) fun _ => .pure _
  | some required => exact .bind (agree_require _ _) fun _ => .pure _

theorem agree_newType (className : String) :
    Agree (site.newType line className) ((site.against other).newType line className) := by
  simp only [newType, against, hsame.contains]
  exact .ite (.pure _) (.bind (.report _) fun _ => .pure _)

theorem agree_newArrayType (elem size : Ty) :
    Agree (site.newArrayType line elem size)
      ((site.against other).newArrayType line elem size) :=
  .bind (agree_require _ _) fun _ => .bind (agree_writtenType hsame _ elem) fun _ => .pure _

theorem agree_instanceOfType (found target : Ty) :
    Agree (site.instanceOfType line found target)
      ((site.against other).instanceOfType line found target) :=
  .ite (.pure _) (.ite (agree_report_pure _ _)
    (.bind (agree_writtenType hsame _ target) fun _ => .pure _))

theorem agree_castType (found target : Ty) :
    Agree (site.castType line found target) ((site.against other).castType line found target) := by
  have hcompatible : (site.against other).hierarchy.compatible = site.hierarchy.compatible :=
    hsame.compatible
  simp only [castType, hcompatible]
  refine .ite (agree_report_pure _ _) (.bind (agree_writtenType hsame _ target) fun target => ?_)
  exact .ite (.pure _) (.bind (agree_require _ _) fun _ => .pure _)

theorem agree_requireResult (returns : Ty) (found : Option Ty) :
    Agree (site.requireResult line returns found)
      ((site.against other).requireResult line returns found) := by
  cases found with
  | none => exact agree_require _ _
  | some found =>
      have hvalid : (site.against other).hierarchy.validType = site.hierarchy.validType :=
        hsame.validType
      simp only [requireResult, hvalid]
      exact .ite (agree_report _) (.ite (agree_requireCompatible hsame _ returns found) (.pure ()))

theorem agree_requireInit (use : Use) (expected : Ty) (found : Option Ty) :
    Agree (site.requireInit line use expected found)
      ((site.against other).requireInit line use expected found) := by
  cases found with
  | none => exact .pure ()
  | some found => exact agree_requireCompatible hsame use expected found

theorem agree_checkFieldInit (field : FieldDecl) (found : Option Ty) :
    Agree (site.checkFieldInit field found) ((site.against other).checkFieldInit field found) := by
  cases found with
  | none => exact .pure ()
  | some found =>
      have hvalid : (site.against other).hierarchy.validType = site.hierarchy.validType :=
        hsame.validType
      simp only [checkFieldInit, hvalid]
      exact .ite (agree_requireCompatible hsame _ field.type found) (.pure ())

end Same

theorem agree_requirePredicate (construct : Construct) (found : Option Ty) :
    Agree (site.requirePredicate line construct found)
      ((site.against other).requirePredicate line construct found) := by
  cases found with
  | none => exact .pure ()
  | some found => exact agree_require _ _

end Site

/-! ## Expressions -/

variable {site : Site} {other : Hierarchy}

mutual

theorem agree_checkExpr (hsame : site.hierarchy.Reordered other) (locals : Scopes Ty) :
    (expr : Expr) →
      Agree (checkExpr site locals expr) (checkExpr (site.against other) locals expr)
  | .node form line _ =>
    .bind_pair (agree_checkForm hsame locals line form) fun _ _ =>
      .bind (.unlessStopped _ _) fun _ => .pure _

theorem agree_checkForm (hsame : site.hierarchy.Reordered other) (locals : Scopes Ty)
    (line : Nat) : (form : Form) →
      Agree (checkForm site locals line form) (checkForm (site.against other) locals line form)
  | .call method args =>
    .bind_pair (agree_checkExprs hsame locals args) fun _ types =>
      .bind (Site.agree_callType hsame site.className method types) fun _ => .pure _
  | .callOn receiver method args =>
    .bind_pair (agree_checkExpr hsame locals receiver) fun _ receiverType =>
      .bind (Site.agree_receiverClass method receiverType) fun className =>
        .bind_pair (agree_checkExprs hsame locals args) fun _ types =>
          .bind (Site.agree_callTypeOn hsame className method types) fun _ => .pure _
  | .new className => .bind (Site.agree_newType hsame className) fun _ => .pure _
  | .newArray elem size =>
    .bind_pair (agree_checkExpr hsame locals size) fun _ sizeType =>
      .bind (Site.agree_newArrayType hsame elem sizeType) fun _ => .pure _
  | .instanceOf subject target =>
    .bind_pair (agree_checkExpr hsame locals subject) fun _ subjectType =>
      .bind (Site.agree_instanceOfType hsame subjectType target) fun _ => .pure _
  | .cast target subject =>
    .bind_pair (agree_checkExpr hsame locals subject) fun _ subjectType =>
      .bind (Site.agree_castType hsame subjectType target) fun _ => .pure _
  | .assign qualifier name value =>
    .bind (Site.agree_targetType hsame locals qualifier name) fun target =>
      .bind_pair (agree_checkExpr hsame locals value) fun _ valueType =>
        .bind (Site.agree_requireCompatible hsame _ target valueType) fun _ => .pure _
  | .assignElem qualifier name index value =>
    .bind (Site.agree_targetType hsame locals qualifier name) fun target =>
      .bind_pair (agree_checkExpr hsame locals index) fun _ _ =>
        .bind (Site.agree_require _ _) fun _ =>
          .bind_pair (agree_checkExpr hsame locals value) fun _ valueType =>
            .bind (Site.agree_elemType name target) fun elem =>
              .bind (Site.agree_requireCompatible hsame _ elem valueType) fun _ => .pure _
  | .binary op left right =>
    .bind_pair (agree_checkExpr hsame locals left) fun _ leftType =>
      .bind_pair (agree_checkExpr hsame locals right) fun _ rightType =>
        .bind (Site.agree_binaryType hsame op leftType rightType) fun _ => .pure _
  | .unary op operand =>
    .bind_pair (agree_checkExpr hsame locals operand) fun _ operandType =>
      .bind (Site.agree_unaryType op operand.isPlace operandType) fun _ => .pure _
  | .var name => .bind (Site.agree_nameType hsame locals name) fun _ => .pure _
  | .field object name =>
    .bind_pair (agree_checkExpr hsame locals object) fun _ objectType =>
      .bind (Site.agree_accessType hsame name objectType) fun _ => .pure _
  | .elem name index =>
    .bind (Site.agree_nameType hsame locals name) fun arrayType =>
      .bind_pair (agree_checkExpr hsame locals index) fun _ _ =>
        .bind (Site.agree_require _ _) fun _ =>
          .bind (Site.agree_elemType name arrayType) fun _ => .pure _
  | .fieldElem object name index =>
    .bind_pair (agree_checkExpr hsame locals object) fun _ objectType =>
      .bind (Site.agree_accessType hsame name objectType) fun arrayType =>
        .bind_pair (agree_checkExpr hsame locals index) fun _ _ =>
          .bind (Site.agree_require _ _) fun _ =>
            .bind (Site.agree_elemType name arrayType) fun _ => .pure _
  | .int _ | .bool _ | .str _ | .null => .pure _

theorem agree_checkExprs (hsame : site.hierarchy.Reordered other) (locals : Scopes Ty) :
    (exprs : List Expr) →
      Agree (checkExprs site locals exprs) (checkExprs (site.against other) locals exprs)
  | [] => .pure _
  | expr :: exprs =>
    .bind_pair (agree_checkExpr hsame locals expr) fun _ _ =>
      .bind_pair (agree_checkExprs hsame locals exprs) fun _ _ => .pure _

end

/-! ## Statements -/

theorem agree_checkOptExpr (hsame : site.hierarchy.Reordered other) (locals : Scopes Ty)
    (expr : Option Expr) :
    Agree (checkOptExpr site locals expr) (checkOptExpr (site.against other) locals expr) := by
  cases expr with
  | none => exact .pure _
  | some expr => exact .bind_pair (agree_checkExpr hsame locals expr) fun _ _ => .pure _

theorem agree_declareLocal (locals : Scopes Ty) (line : Nat) (name : String) (type : Ty) :
    Agree (declareLocal site locals line name type)
      (declareLocal (site.against other) locals line name type) :=
  .ite (Site.agree_report_pure _ _) (.unlessStopped _ _)

theorem agree_checkReturn (hsame : site.hierarchy.Reordered other) (returns : Option Ty)
    (locals : Scopes Ty) (line : Nat) (value : Option Expr) :
    Agree (checkReturn site returns locals line value)
      (checkReturn (site.against other) returns locals line value) := by
  cases returns with
  | none => exact Site.agree_report_pure _ _
  | some returns =>
      exact .bind_pair (agree_checkOptExpr hsame locals value) fun _ found =>
        .bind (Site.agree_requireResult hsame returns found) fun _ => .pure _

mutual

theorem agree_checkStmt (hsame : site.hierarchy.Reordered other) (returns : Option Ty)
    (loops : Nat) (locals : Scopes Ty) : (stmt : Stmt) →
      Agree (checkStmt site returns loops locals stmt)
        (checkStmt (site.against other) returns loops locals stmt)
  | .expr subject => .bind_pair (agree_checkExpr hsame locals subject) fun _ _ => .pure _
  | .decl name type init line =>
    .bind (Site.agree_writtenType hsame _ type) fun declared =>
      .bind_pair (agree_checkOptExpr hsame locals init) fun _ found =>
        .bind (Site.agree_requireInit hsame _ declared found) fun _ =>
          .bind (agree_declareLocal locals line name declared) fun _ => .pure _
  | .ret value _ =>
    .bind (agree_checkReturn hsame returns locals _ value) fun _ => .pure _
  | .ifThen cond body _ =>
    .bind_pair (agree_checkExpr hsame locals cond) fun _ _ =>
      .bind (Site.agree_require _ _) fun _ =>
        .bind_pair (agree_checkStmt hsame returns loops locals.enter body) fun _ _ => .pure _
  | .ifElse cond body other _ =>
    .bind_pair (agree_checkExpr hsame locals cond) fun _ _ =>
      .bind (Site.agree_require _ _) fun _ =>
        .bind_pair (agree_checkStmt hsame returns loops locals.enter body) fun _ locals =>
          .bind_pair (agree_checkStmt hsame returns loops locals.leave.enter other) fun _ _ =>
            .pure _
  | .whileLoop cond body _ =>
    .bind_pair (agree_checkExpr hsame locals cond) fun _ _ =>
      .bind (Site.agree_require _ _) fun _ =>
        .bind_pair (agree_checkStmt hsame returns (loops + 1) locals.enter body) fun _ _ => .pure _
  | .forLoop init cond update body _ =>
    .bind_pair (agree_checkOptExpr hsame locals init) fun _ _ =>
      .bind_pair (agree_checkOptExpr hsame locals cond) fun _ found =>
        .bind (Site.agree_requirePredicate _ found) fun _ =>
          .bind_pair (agree_checkOptExpr hsame locals update) fun _ _ =>
            .bind_pair (agree_checkStmt hsame returns (loops + 1) locals.enter body) fun _ _ =>
              .pure _
  | .block body _ =>
    .bind_pair (agree_checkStmts hsame returns loops locals.enter body) fun _ _ => .pure _
  | .breakLoop _ => .bind (Site.agree_require _ _) fun _ => .pure _

theorem agree_checkStmts (hsame : site.hierarchy.Reordered other) (returns : Option Ty)
    (loops : Nat) (locals : Scopes Ty) : (stmts : List Stmt) →
      Agree (checkStmts site returns loops locals stmts)
        (checkStmts (site.against other) returns loops locals stmts)
  | [] => .pure _
  | stmt :: stmts =>
    .bind_pair (agree_checkStmt hsame returns loops locals stmt) fun _ locals =>
      .bind_pair (agree_checkStmts hsame returns loops locals stmts) fun _ _ => .pure _

end

/-! ## Classes -/

theorem agree_declareParam (hsame : site.hierarchy.Reordered other) (method : MethodDecl)
    (locals : Scopes Ty) (param : Param) :
    Agree (declareParam site method locals param)
      (declareParam (site.against other) method locals param) := by
  have htype : (site.against other).paramType param = site.paramType param := by
    simp only [Site.paramType, Site.against, hsame.validType]
  rw [declareParam, declareParam, htype]
  exact .ite (Site.agree_report_pure _ _) (.pure _)

theorem agree_checkMember (hsame : site.hierarchy.Reordered other) (member : Member) :
    Agree (checkMember site member) (checkMember (site.against other) member) := by
  cases member with
  | field field =>
      have hfield : Agree (checkField site field) (checkField (site.against other) field) :=
        .bind_pair (agree_checkOptExpr hsame {} field.init) fun _ found =>
          .bind (Site.agree_checkFieldInit hsame field found) fun _ => .pure _
      exact .bind hfield fun _ => .pure _
  | method method =>
      have hmethod : Agree (checkMethod site method) (checkMethod (site.against other) method) :=
        .bind (.foldlM (agree_declareParam hsame method) method.params _) fun locals =>
          .bind_pair (agree_checkStmts hsame method.returnType 0 locals method.body) fun _ _ =>
            .pure _
      exact .bind hmethod fun _ => .pure _

/-- The members of a class get the same types and the same is reported. -/
theorem agree_checkClass {hierarchy : Hierarchy} (hsame : hierarchy.Reordered other)
    (decl : ClassDecl) : Agree (checkClass hierarchy decl) (checkClass other decl) := by
  have hchecked : isChecked other decl = isChecked hierarchy decl := by
    rw [isChecked, hsame.get?, isChecked]
  rw [checkClass, checkClass, hchecked]
  refine .ite (.bind (.mapM (fun member => ?_) decl.members) fun _ => .pure _) (.pure decl)
  exact @agree_checkMember ⟨hierarchy, decl.name, decl.file⟩ other hsame member

end ClassLang.Typing
