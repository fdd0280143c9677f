/-
# Expressions

An expression is a form together with its source line and the type that was
found for it. The type is absent until a check has finished the expression.
Names that stand for a variable of the class itself and names reached through
an object are different forms, because they are resolved differently.
-/

import ClassLang.Source.Operator

namespace ClassLang

mutual

/-- An expression with its line and, once checked, its type. -/
inductive Expr where
  | node (form : Form) (line : Nat) (ty : Option Ty)

/-- What an expression is made of. -/
inductive Form where
  /-- A call of a method of the current class. -/
  | call (method : String) (args : List Expr)
  /-- A call of a method of the receiver. -/
  | callOn (receiver : Expr) (method : String) (args : List Expr)
  | new (className : String)
  | newArray (elem : Ty) (size : Expr)
  | instanceOf (subject : Expr) (target : Ty)
  | cast (target : Ty) (subject : Expr)
  | assign (qualifier : Option String) (name : String) (value : Expr)
  | assignElem (qualifier : Option String) (name : String) (index value : Expr)
  | binary (op : BinaryOp) (left right : Expr)
  | unary (op : UnaryOp) (operand : Expr)
  /-- A variable, or one of the names `this` and `super`. -/
  | var (name : String)
  /-- A field of an object. -/
  | field (object : Expr) (name : String)
  /-- An element of an array variable. -/
  | elem (name : String) (index : Expr)
  /-- An element of an array held in a field of an object. -/
  | fieldElem (object : Expr) (name : String) (index : Expr)
  | int (value : Int)
  | bool (value : Bool)
  | str (value : String)
  | null

end

namespace Expr

/-- The form of an expression. -/
def form : Expr → Form
  | node form _ _ => form

/-- The source line of an expression. -/
def line : Expr → Nat
  | node _ line _ => line

/-- The type found for an expression, if a check has finished it. -/
def ty : Expr → Option Ty
  | node _ _ ty => ty

/-- An expression that has not been checked. -/
def unchecked (line : Nat) (form : Form) : Expr :=
  node form line none

/-- Whether the expression denotes a place that can be stored into: a variable, a
field or an array element, but neither `this` nor `super`. -/
def isPlace (expr : Expr) : Bool :=
  match expr.form with
  | .var name | .field _ name => name != "this" && name != "super"
  | .elem _ _ | .fieldElem _ _ _ => true
  | _ => false

end Expr

mutual

/-- The types of an expression and of everything inside it, each expression
before its parts and the parts from left to right. -/
def Expr.annotations : Expr → List (Option Ty)
  | .node form _ ty => ty :: form.annotations

/-- The types of the expressions inside a form. -/
def Form.annotations : Form → List (Option Ty)
  | .call _ args => Expr.listAnnotations args
  | .callOn receiver _ args => receiver.annotations ++ Expr.listAnnotations args
  | .newArray _ size => size.annotations
  | .instanceOf subject _ => subject.annotations
  | .cast _ subject => subject.annotations
  | .assign _ _ value => value.annotations
  | .assignElem _ _ index value => index.annotations ++ value.annotations
  | .binary _ left right => left.annotations ++ right.annotations
  | .unary _ operand => operand.annotations
  | .field object _ => object.annotations
  | .elem _ index => index.annotations
  | .fieldElem object _ index => object.annotations ++ index.annotations
  | .new _ | .var _ | .int _ | .bool _ | .str _ | .null => []

/-- The types of a list of expressions, in the order of the list. -/
def Expr.listAnnotations : List Expr → List (Option Ty)
  | [] => []
  | expr :: exprs => expr.annotations ++ Expr.listAnnotations exprs

end

end ClassLang
