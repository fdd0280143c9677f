/-
# Statements

The statements of method bodies. A branch without an alternative is a form of its
own, so that nothing optional stands between a statement and its parts.
-/

import ClassLang.Source.Expr

namespace ClassLang

/-- A statement. -/
inductive Stmt where
  | expr (subject : Expr)
  /-- The declaration of a local variable. -/
  | decl (name : String) (type : Ty) (init : Option Expr) (line : Nat)
  | ret (value : Option Expr) (line : Nat)
  | ifThen (cond : Expr) (body : Stmt) (line : Nat)
  | ifElse (cond : Expr) (body other : Stmt) (line : Nat)
  | whileLoop (cond : Expr) (body : Stmt) (line : Nat)
  | forLoop (init cond update : Option Expr) (body : Stmt) (line : Nat)
  | block (body : List Stmt) (line : Nat)
  | breakLoop (line : Nat)

/-- The types of an expression that may be absent. -/
def Expr.optAnnotations : Option Expr → List (Option Ty)
  | some expr => expr.annotations
  | none => []

mutual

/-- The types of all expressions in a statement, in the order of the text. -/
def Stmt.annotations : Stmt → List (Option Ty)
  | .expr subject => subject.annotations
  | .decl _ _ init _ => Expr.optAnnotations init
  | .ret value _ => Expr.optAnnotations value
  | .ifThen cond body _ => cond.annotations ++ body.annotations
  | .ifElse cond body other _ => cond.annotations ++ body.annotations ++ other.annotations
  | .whileLoop cond body _ => cond.annotations ++ body.annotations
  | .forLoop init cond update body _ =>
    Expr.optAnnotations init ++ Expr.optAnnotations cond ++ Expr.optAnnotations update ++
      body.annotations
  | .block body _ => Stmt.listAnnotations body
  | .breakLoop _ => []

/-- The types of all expressions in a list of statements. -/
def Stmt.listAnnotations : List Stmt → List (Option Ty)
  | [] => []
  | stmt :: stmts => stmt.annotations ++ Stmt.listAnnotations stmts

end

end ClassLang
