/-
# Members of classes

The tables of a class start as those of its parent with a new innermost scope for
its own members, so inherited members are found behind them. The tables are made
from the root downwards. Fields and methods may hide those of ancestors, but a
method that does must keep the inherited signature.
-/

import ClassLang.Diagnostic.Pass
import ClassLang.Hierarchy.Census
import ClassLang.Hierarchy.Compatible

namespace ClassLang.Hierarchy

/-- What can be wrong with the declaration of a member. -/
inductive MemberFault where
  | fieldType (type : Ty) (field : String)
  | duplicateField (field className : String)
  | returnType (type : Ty) (method : String)
  | paramType (type : Ty) (param : String)
  | duplicateMethod (method className : String)
  | changedSignature (method : String) (inherited : Signature)
  deriving DecidableEq, Repr

/-- The wording of a fault. -/
def MemberFault.message : MemberFault → String
  | fieldType type field => "invalid type '" ++ type.text ++ "' for field '" ++ field ++ "'"
  | duplicateField field className =>
    "field '" ++ field ++ "' already declared in class '" ++ className ++ "'"
  | returnType type method =>
    "invalid return type '" ++ type.text ++ "' for method '" ++ method ++ "'"
  | paramType type param => "invalid type '" ++ type.text ++ "' for parameter '" ++ param ++ "'"
  | duplicateMethod method className =>
    "method '" ++ method ++ "' already declared in class '" ++ className ++ "'"
  | changedSignature method inherited =>
    "overriding method '" ++ method ++ "' must keep the signature " ++ inherited.text ++
      " declared in '" ++ inherited.className ++ "'"

/-- A fault at a line of the file of a class. -/
def MemberFault.at (fault : MemberFault) (decl : ClassDecl) (line : Nat) : Diagnostic :=
  .located .semantic decl.file line fault.message

/-- Enter a field into the table of its class. -/
def declareField (hierarchy : Hierarchy) (decl : ClassDecl) (fields : Scopes Ty)
    (field : FieldDecl) : CheckM (Scopes Ty) := do
  CheckM.require (hierarchy.validType false field.type)
    ((MemberFault.fieldType field.type field.name).at decl field.line)
  if (fields.peek field.name).isSome then
    CheckM.report ((MemberFault.duplicateField field.name decl.name).at decl field.line)
    return fields
  else return fields.add field.name field.type

/-- Check the types that are written in the head of a method. -/
def checkHead (hierarchy : Hierarchy) (decl : ClassDecl) (method : MethodDecl) : CheckM Unit := do
  CheckM.require (hierarchy.validType true method.returnType)
    ((MemberFault.returnType method.returnType method.name).at decl method.line)
  method.params.forM fun param =>
    CheckM.require (hierarchy.validType false param.type)
      ((MemberFault.paramType param.type param.name).at decl method.line)

/-- Check a method against the one that it hides, if there is one. -/
def checkOverride (decl : ClassDecl) (method : MethodDecl) (inherited : Option Signature) :
    CheckM Unit :=
  match inherited with
  | none => return
  | some inherited =>
    CheckM.require (inherited.agrees (method.signature decl.name))
      ((MemberFault.changedSignature method.name inherited).at decl method.line)

/-- Enter a method into the table of its class. -/
def declareMethod (hierarchy : Hierarchy) (decl : ClassDecl) (methods : Scopes Signature)
    (method : MethodDecl) : CheckM (Scopes Signature) := do
  checkHead hierarchy decl method
  if (methods.peek method.name).isSome then
    CheckM.report ((MemberFault.duplicateMethod method.name decl.name).at decl method.line)
    return methods
  else
    checkOverride decl method (methods.lookup method.name)
    return methods.add method.name (method.signature decl.name)

/-- A table of a class before its own members: that of the parent with a new
scope, or an empty one for a class without a parent. -/
def inherited {α : Type} (hierarchy : Hierarchy) (info : ClassInfo)
    (table : ClassInfo → Scopes α) : Scopes α :=
  match info.parent with
  | none => {}
  | some parent => ((hierarchy.get? parent).elim {} table).enter

/-- The declaration that a class was made from. -/
def declaration? (program : Program) (info : ClassInfo) : Option ClassDecl :=
  program.classes.find? info.describes

/-- The fields and the methods of a class. -/
abbrev Tables := Scopes Ty × Scopes Signature

/-- A class with other tables. -/
def withTables (info : ClassInfo) (tables : Tables) : ClassInfo :=
  { info with fields := tables.1, methods := tables.2 }

/-- Enter the members of a declaration into tables. -/
def declareMembers (hierarchy : Hierarchy) (decl : ClassDecl) (start : Tables) :
    CheckM Tables := do
  let fields ← decl.fields.foldlM (declareField hierarchy decl) start.1
  let methods ← decl.methods.foldlM (declareMethod hierarchy decl) start.2
  return (fields, methods)

/-- The tables of a class; without a declaration they stay as they are. -/
def makeTables (program : Program) (hierarchy : Hierarchy) (info : ClassInfo) : CheckM Tables :=
  match declaration? program info with
  | none => return (info.fields, info.methods)
  | some decl =>
    declareMembers hierarchy decl
      (hierarchy.inherited info ClassInfo.fields, hierarchy.inherited info ClassInfo.methods)

/-- Make the tables of a class. They are left as they were if the pass is stopped
on the way. -/
def collectClass (program : Program) (hierarchy : Hierarchy) (name : String) :
    CheckM Hierarchy := do
  match hierarchy.get? name with
  | none => return hierarchy
  | some info =>
    let tables ← makeTables program hierarchy info
    CheckM.unlessStopped hierarchy (hierarchy.modify name fun info => withTables info tables)

/-- Make the tables of all classes, from the root downwards. -/
def collectMembers (program : Program) (hierarchy : Hierarchy) : CheckM Hierarchy :=
  hierarchy.rootFirst.foldlM (collectClass program) hierarchy

end ClassLang.Hierarchy
