/-
# Where rules report

A rule reports at the line that it is given, and in the file of the class. The rule on
breaks is set apart, since its reports are counted on their own.
-/

import ClassLang.Proofs.Diagnostic.Confining
import ClassLang.Proofs.Source.Annotation
import ClassLang.Typing.Program

namespace ClassLang

/-! ## The lines of a declaration -/

/-- The lines of expressions. -/
def Expr.linesOf (nodes : List Expr) : List Nat :=
  nodes.map Expr.line

mutual

/-- The lines of a statement, of the statements inside it and of all their
expressions. -/
def Stmt.lines : Stmt → List Nat
  | .expr subject => Expr.linesOf subject.nodes
  | .decl _ _ init line => line :: Expr.linesOf (Expr.optNodes init)
  | .ret value line => line :: Expr.linesOf (Expr.optNodes value)
  | .ifThen cond body line => line :: (Expr.linesOf cond.nodes ++ body.lines)
  | .ifElse cond body other line =>
    line :: (Expr.linesOf cond.nodes ++ body.lines ++ other.lines)
  | .whileLoop cond body line => line :: (Expr.linesOf cond.nodes ++ body.lines)
  | .forLoop init cond update body line =>
    line :: (Expr.linesOf (Expr.optNodes init) ++ Expr.linesOf (Expr.optNodes cond) ++
      Expr.linesOf (Expr.optNodes update) ++ body.lines)
  | .block body line => line :: Stmt.listLines body
  | .breakLoop line => [line]

/-- The lines of statements. -/
def Stmt.listLines : List Stmt → List Nat
  | [] => []
  | stmt :: stmts => stmt.lines ++ Stmt.listLines stmts

end

/-- The lines of a member, of its statements and of its expressions. -/
def Member.lines : Member → List Nat
  | field decl => decl.line :: Expr.linesOf (Expr.optNodes decl.init)
  | method decl => decl.line :: Stmt.listLines decl.body

/-- The lines of a class, of its members, of their statements and of their
expressions. -/
def ClassDecl.lines (decl : ClassDecl) : List Nat :=
  decl.line :: decl.members.flatMap Member.lines

namespace Typing

open CheckM

variable {allowed : Diagnostic → Prop}

/-! ## Rules on single types -/

/-- Whether a fault is a break outside of a loop. -/
def Fault.isStrayBreak : Fault → Bool
  | strayBreak => true
  | _ => false

namespace Site

variable {site : Site} {line : Nat}

/-- Whatever the message is, it may be reported at this line. -/
def AllowsAt (site : Site) (allowed : Diagnostic → Prop) (line : Nat) : Prop :=
  ∀ message, allowed (.located .semantic site.file line message)

/-- Whatever rule but that on breaks is broken, it may be reported at this line. -/
def AllowsRules (site : Site) (allowed : Diagnostic → Prop) (line : Nat) : Prop :=
  ∀ fault : Fault, fault.isStrayBreak = false →
    allowed (.located .semantic site.file line fault.message)

theorem AllowsAt.rules (hline : site.AllowsAt allowed line) : site.AllowsRules allowed line :=
  fun _ _ => hline _

theorem allowsRules_true : site.AllowsRules (fun _ => True) line :=
  fun _ _ => trivial

section Rules

variable (hline : site.AllowsRules allowed line)

include hline

theorem confined_report (fault : Fault) (hfault : fault.isStrayBreak = false) :
    Confined allowed (site.report line fault) :=
  .report (hline fault hfault)

theorem confined_require (holds : Bool) (fault : Fault)
    (hfault : fault.isStrayBreak = false) :
    Confined allowed (site.require holds line fault) :=
  .ite (fun _ => .pure ()) fun _ => confined_report hline fault hfault

theorem confined_report_pure {α : Type} (fault : Fault) (value : α)
    (hfault : fault.isStrayBreak = false) :
    Confined allowed (site.report line fault >>= fun _ => pure value) :=
  .bind (confined_report hline fault hfault) fun _ => .pure value

theorem confined_requireCompatible (use : Use) (expected actual : Ty) :
    Confined allowed (site.requireCompatible line use expected actual) :=
  .ite (fun _ => .pure ()) fun _ =>
    .bind (confined_report hline _ rfl) fun _ =>
      .bind (confined_require hline _ _ rfl) fun _ => confined_require hline _ _ rfl

theorem confined_writtenType (place : TypePlace) (type : Ty) :
    Confined allowed (site.writtenType line place type) :=
  .ite (fun _ => .pure type) fun _ => confined_report_pure hline _ _ rfl

theorem confined_superclass : Confined allowed (site.superclass line) := by
  unfold superclass
  cases site.parent? with
  | none => exact confined_report_pure hline _ _ rfl
  | some parent => exact .pure _

theorem confined_fieldType (className name : String) :
    Confined allowed (site.fieldType line className name) := by
  unfold fieldType
  cases site.hierarchy.field? className name with
  | none => exact confined_report_pure hline _ _ rfl
  | some type => exact .pure _

theorem confined_variableType (locals : Scopes Ty) (name : String) :
    Confined allowed (site.variableType locals line name) := by
  unfold variableType
  cases (locals.lookup name).or (site.hierarchy.field? site.className name) with
  | none => exact confined_report_pure hline _ _ rfl
  | some type => exact .pure _

theorem confined_nameType (locals : Scopes Ty) (name : String) :
    Confined allowed (site.nameType locals line name) := by
  refine .ite (fun _ => .pure _) fun _ => .ite (fun _ => ?_) fun _ =>
    confined_variableType hline locals name
  refine .bind (confined_superclass hline) fun parent => ?_
  cases parent with
  | none => exact .pure _
  | some parent => exact .pure _

theorem confined_targetType (locals : Scopes Ty) (qualifier : Option String) (name : String) :
    Confined allowed (site.targetType locals line qualifier name) := by
  cases qualifier with
  | none => exact confined_variableType hline locals name
  | some qualifier =>
      refine .ite (fun _ => confined_fieldType hline _ name) fun _ => .ite (fun _ => ?_) fun _ =>
        .ite (fun _ => confined_fieldType hline qualifier name) fun _ =>
          confined_report_pure hline _ _ rfl
      refine .bind (confined_superclass hline) fun parent => ?_
      cases parent with
      | none => exact .pure _
      | some parent => exact confined_fieldType hline parent name

theorem confined_accessType (name : String) (found : Ty) :
    Confined allowed (site.accessType line name found) := by
  cases found with
  | named className => exact confined_fieldType hline className name
  | error => exact .pure _
  | array elem => exact .ite (fun _ => .pure _) fun _ => confined_report_pure hline _ _ rfl
  | _ => exact confined_report_pure hline _ _ rfl

theorem confined_elemType (name : String) (found : Ty) :
    Confined allowed (site.elemType line name found) := by
  cases found with
  | array elem => exact .pure _
  | error => exact .pure _
  | _ => exact confined_report_pure hline _ _ rfl

theorem confined_receiverClass (method : String) (found : Ty) :
    Confined allowed (site.receiverClass line method found) := by
  cases found with
  | named className => exact .pure _
  | array elem => exact .pure _
  | error => exact .pure _
  | _ => exact confined_report_pure hline _ _ rfl

theorem confined_checkArguments (method : String) (position : Nat) (params : List Param)
    (args : List Ty) : Confined allowed (site.checkArguments line method position params args) := by
  induction params generalizing position args with
  | nil => exact .pure ()
  | cons param params ih =>
      cases args with
      | nil => exact .pure ()
      | cons arg args =>
          exact .bind (confined_requireCompatible hline _ param.type arg) fun _ => ih _ args

theorem confined_callType (className method : String) (args : List Ty) :
    Confined allowed (site.callType line className method args) := by
  unfold callType
  cases site.hierarchy.method? className method with
  | none => exact confined_report_pure hline _ _ rfl
  | some sig =>
      refine .ite (fun _ => ?_) fun _ => confined_report_pure hline _ _ rfl
      exact .bind (confined_checkArguments hline method 1 sig.params args) fun _ => .pure _

theorem confined_callTypeOn (className : Option String) (method : String) (args : List Ty) :
    Confined allowed (site.callTypeOn line className method args) := by
  cases className with
  | none => exact .pure _
  | some className => exact confined_callType hline className method args

theorem confined_binaryType (op : BinaryOp) (left right : Ty) :
    Confined allowed (site.binaryType line op left right) := by
  refine .ite (fun _ => .pure _) fun _ => ?_
  cases op.operandType with
  | none => exact .bind (confined_require hline _ _ rfl) fun _ => .pure _
  | some required => exact .bind (confined_require hline _ _ rfl) fun _ => .pure _

theorem confined_unaryType (op : UnaryOp) (isPlace : Bool) (found : Ty) :
    Confined allowed (site.unaryType line op isPlace found) :=
  .bind (confined_require hline _ _ rfl) fun _ =>
    .bind (confined_require hline _ _ rfl) fun _ => .pure _

theorem confined_newType (className : String) :
    Confined allowed (site.newType line className) :=
  .ite (fun _ => .pure _) fun _ => confined_report_pure hline _ _ rfl

theorem confined_newArrayType (elem size : Ty) :
    Confined allowed (site.newArrayType line elem size) :=
  .bind (confined_require hline _ _ rfl) fun _ =>
    .bind (confined_writtenType hline _ elem) fun _ => .pure _

theorem confined_instanceOfType (found target : Ty) :
    Confined allowed (site.instanceOfType line found target) :=
  .ite (fun _ => .pure _) fun _ => .ite (fun _ => confined_report_pure hline _ _ rfl) fun _ =>
    .bind (confined_writtenType hline _ target) fun _ => .pure _

theorem confined_castType (found target : Ty) :
    Confined allowed (site.castType line found target) :=
  .ite (fun _ => confined_report_pure hline _ _ rfl) fun _ =>
    .bind (confined_writtenType hline _ target) fun _ =>
      .ite (fun _ => .pure _) fun _ => .bind (confined_require hline _ _ rfl) fun _ => .pure _

theorem confined_requireInit (use : Use) (expected : Ty) (found : Option Ty) :
    Confined allowed (site.requireInit line use expected found) := by
  cases found with
  | none => exact .pure ()
  | some found => exact confined_requireCompatible hline use expected found

theorem confined_requireResult (returns : Ty) (found : Option Ty) :
    Confined allowed (site.requireResult line returns found) := by
  cases found with
  | none => exact confined_require hline _ _ rfl
  | some found =>
      exact .ite (fun _ => confined_report hline _ rfl) fun _ =>
        .ite (fun _ => confined_requireCompatible hline _ returns found) fun _ => .pure ()

theorem confined_requirePredicate (construct : Construct) (found : Option Ty) :
    Confined allowed (site.requirePredicate line construct found) := by
  cases found with
  | none => exact .pure ()
  | some found => exact confined_require hline _ _ rfl

end Rules

theorem confined_checkFieldInit {field : FieldDecl}
    (hline : site.AllowsRules allowed field.line) (found : Option Ty) :
    Confined allowed (site.checkFieldInit field found) := by
  cases found with
  | none => exact .pure ()
  | some found =>
      exact .ite (fun _ => confined_requireCompatible hline _ _ found) fun _ => .pure ()

end Site

/-! ## Rules on names -/

variable {site : Site}

theorem confined_declareLocal (locals : Scopes Ty) {line : Nat}
    (hline : site.AllowsRules allowed line) (name : String) (type : Ty) :
    Confined allowed (declareLocal site locals line name type) :=
  .ite (fun _ => Site.confined_report_pure hline _ _ rfl) fun _ => .unlessStopped _ _

theorem confined_declareParam (method : MethodDecl) (hline : site.AllowsRules allowed method.line)
    (locals : Scopes Ty) (param : Param) :
    Confined allowed (declareParam site method locals param) :=
  .ite (fun _ => Site.confined_report_pure hline _ _ rfl) fun _ => .pure _

end Typing

end ClassLang
