/-
# Programs

A program is a list of class declarations from any number of files. Nothing
keeps two declarations from having the same name; which of them counts is decided
when the class tree is built.
-/

import ClassLang.Source.Signature
import ClassLang.Source.Stmt

namespace ClassLang

/-- The declaration of a field. -/
structure FieldDecl where
  name : String
  type : Ty
  init : Option Expr := none
  line : Nat

/-- The declaration of a method. -/
structure MethodDecl where
  name : String
  returnType : Ty
  params : List Param
  body : List Stmt := []
  line : Nat

/-- A member of a class. -/
inductive Member where
  | field (decl : FieldDecl)
  | method (decl : MethodDecl)

/-- The declaration of a class. -/
structure ClassDecl where
  name : String
  /-- The parent that is written in the declaration. -/
  parent : Option String := none
  file : String
  line : Nat
  members : List Member := []

/-- A program. -/
structure Program where
  classes : List ClassDecl

/-- The signature of a method declared in the class `className`. -/
def MethodDecl.signature (decl : MethodDecl) (className : String) : Signature where
  name := decl.name
  className := className
  params := decl.params
  returnType := decl.returnType
  line := decl.line

/-- The types of all expressions in a member. -/
def Member.annotations : Member → List (Option Ty)
  | field decl => Expr.optAnnotations decl.init
  | method decl => Stmt.listAnnotations decl.body

namespace ClassDecl

/-- The fields of a class in order. -/
def fields (decl : ClassDecl) : List FieldDecl :=
  decl.members.filterMap fun
    | .field field => some field
    | .method _ => none

/-- The methods of a class in order. -/
def methods (decl : ClassDecl) : List MethodDecl :=
  decl.members.filterMap fun
    | .field _ => none
    | .method method => some method

/-- The types of all expressions in a class. -/
def annotations (decl : ClassDecl) : List (Option Ty) :=
  decl.members.flatMap Member.annotations

end ClassDecl

/-- The first declaration of a class with this name. -/
def Program.find? (program : Program) (name : String) : Option ClassDecl :=
  program.classes.find? fun decl => decl.name == name

end ClassLang
