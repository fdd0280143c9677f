/-
# Typing programs

The members of every class of the program are checked, except those of built-in
classes and of declarations that the class tree does not know. Parameters share a
scope with the top level of the body.
-/

import ClassLang.Source.Builtin
import ClassLang.Typing.Stmt

namespace ClassLang.Typing

/-- The type of a parameter in the body: the error type if the written type does
not exist, which is reported with the members of the class. -/
def Site.paramType (site : Site) (param : Param) : Ty :=
  if site.hierarchy.validType false param.type then param.type else .error

/-- Declare a parameter of a method. -/
def declareParam (site : Site) (method : MethodDecl) (locals : Scopes Ty) (param : Param) :
    CheckM (Scopes Ty) := do
  if (locals.peek param.name).isSome then
    site.report method.line (.duplicateParam param.name method.name)
    return locals
  else return locals.add param.name (site.paramType param)

/-- The value of a field has to suit the type of the field, where that exists. -/
def Site.checkFieldInit (site : Site) (field : FieldDecl) : Option Ty → CheckM Unit
  | none => return
  | some found =>
    if site.hierarchy.validType false field.type then
      site.requireCompatible field.line (.fieldInit field.name) field.type found
    else return

/-- Check the initializer of a field, which sees no local variables. -/
def checkField (site : Site) (field : FieldDecl) : CheckM FieldDecl := do
  let (init, found) ← checkOptExpr site {} field.init
  site.checkFieldInit field found
  return { field with init }

/-- Check the parameters and the body of a method. -/
def checkMethod (site : Site) (method : MethodDecl) : CheckM MethodDecl := do
  let locals ← method.params.foldlM (declareParam site method) ({} : Scopes Ty).enter
  let (body, _) ← checkStmts site (some method.returnType) 0 locals method.body
  return { method with body }

/-- Check a member of a class. -/
def checkMember (site : Site) : Member → CheckM Member
  | .field decl => return .field (← checkField site decl)
  | .method decl => return .method (← checkMethod site decl)

/-- Whether the members of a declaration are checked. -/
def isChecked (hierarchy : Hierarchy) (decl : ClassDecl) : Bool :=
  !decl.isBuiltin && (hierarchy.get? decl.name).any fun info => info.describes decl

/-- Check the members of a class. -/
def checkClass (hierarchy : Hierarchy) (decl : ClassDecl) : CheckM ClassDecl := do
  if isChecked hierarchy decl then
    let members ← decl.members.mapM (checkMember ⟨hierarchy, decl.name, decl.file⟩)
    return { decl with members }
  else return decl

/-- Check a program against its class tree. -/
def checkProgram (hierarchy : Hierarchy) (program : Program) : CheckM Program := do
  let classes ← program.classes.mapM (checkClass hierarchy)
  return ⟨classes⟩

end ClassLang.Typing
