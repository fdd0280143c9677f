/-
# Typing expressions

An expression is checked from the inside out and from left to right, and gets its
type once everything in it is done. The expression comes back with the types
written into it. An expression that the limit has cut off keeps the type that it
had before.
-/

import ClassLang.Source.Expr
import ClassLang.Typing.Site

namespace ClassLang.Typing

mutual

/-- Check an expression, write its type into it, and return that type. -/
def checkExpr (site : Site) (locals : Scopes Ty) : Expr → CheckM (Expr × Ty)
  | .node form line ty => do
    let (form, found) ← checkForm site locals line form
    let ty ← CheckM.unlessStopped ty (some found)
    return (.node form line ty, found)

/-- Check the form of an expression on a line and find its type. -/
def checkForm (site : Site) (locals : Scopes Ty) (line : Nat) : Form → CheckM (Form × Ty)
  | .call method args => do
    let (args, types) ← checkExprs site locals args
    let found ← site.callType line site.className method types
    return (.call method args, found)
  | .callOn receiver method args => do
    let (receiver, receiverType) ← checkExpr site locals receiver
    let className ← site.receiverClass line method receiverType
    let (args, types) ← checkExprs site locals args
    let found ← site.callTypeOn line className method types
    return (.callOn receiver method args, found)
  | .new className => do
    let found ← site.newType line className
    return (.new className, found)
  | .newArray elem size => do
    let (size, sizeType) ← checkExpr site locals size
    let found ← site.newArrayType line elem sizeType
    return (.newArray elem size, found)
  | .instanceOf subject target => do
    let (subject, subjectType) ← checkExpr site locals subject
    let found ← site.instanceOfType line subjectType target
    return (.instanceOf subject target, found)
  | .cast target subject => do
    let (subject, subjectType) ← checkExpr site locals subject
    let found ← site.castType line subjectType target
    return (.cast target subject, found)
  | .assign qualifier name value => do
    let target ← site.targetType locals line qualifier name
    let (value, valueType) ← checkExpr site locals value
    site.requireCompatible line (.assignment name) target valueType
    return (.assign qualifier name value, target)
  | .assignElem qualifier name index value => do
    let target ← site.targetType locals line qualifier name
    let (index, indexType) ← checkExpr site locals index
    site.requireInt line .arrayIndex indexType
    let (value, valueType) ← checkExpr site locals value
    let elem ← site.elemType line name target
    site.requireCompatible line (.elemAssignment name) elem valueType
    return (.assignElem qualifier name index value, elem)
  | .binary op left right => do
    let (left, leftType) ← checkExpr site locals left
    let (right, rightType) ← checkExpr site locals right
    let found ← site.binaryType line op leftType rightType
    return (.binary op left right, found)
  | .unary op operand => do
    let isPlace := operand.isPlace
    let (operand, operandType) ← checkExpr site locals operand
    let found ← site.unaryType line op isPlace operandType
    return (.unary op operand, found)
  | .var name => do
    let found ← site.nameType locals line name
    return (.var name, found)
  | .field object name => do
    let (object, objectType) ← checkExpr site locals object
    let found ← site.accessType line name objectType
    return (.field object name, found)
  | .elem name index => do
    let arrayType ← site.nameType locals line name
    let (index, indexType) ← checkExpr site locals index
    site.requireInt line .arrayIndex indexType
    let found ← site.elemType line name arrayType
    return (.elem name index, found)
  | .fieldElem object name index => do
    let (object, objectType) ← checkExpr site locals object
    let arrayType ← site.accessType line name objectType
    let (index, indexType) ← checkExpr site locals index
    site.requireInt line .arrayIndex indexType
    let found ← site.elemType line name arrayType
    return (.fieldElem object name index, found)
  | .int value => return (.int value, .int)
  | .bool value => return (.bool value, .boolean)
  | .str value => return (.str value, .string)
  | .null => return (.null, .null)

/-- Check expressions in order. -/
def checkExprs (site : Site) (locals : Scopes Ty) : List Expr → CheckM (List Expr × List Ty)
  | [] => return ([], [])
  | expr :: exprs => do
    let (expr, found) ← checkExpr site locals expr
    let (exprs, types) ← checkExprs site locals exprs
    return (expr :: exprs, found :: types)

end

end ClassLang.Typing
