/-
# Rules on single types

The rules that look at types already found: what may be assigned, called,
compared, indexed, and what a name or a field means. A broken rule is reported
once. The answer is then the error type where nothing better is known, and that
type is accepted everywhere without a further report.
-/

import ClassLang.Diagnostic.Pass
import ClassLang.Hierarchy.Compatible
import ClassLang.Typing.Fault

namespace ClassLang.Typing

/-- The class whose members are being checked. -/
structure Site where
  hierarchy : Hierarchy
  className : String
  file : String

namespace Site

variable (site : Site)

/-- Report a fault at a line of the file of the class. -/
def report (line : Nat) (fault : Fault) : CheckM Unit :=
  CheckM.report (.located .semantic site.file line fault.message)

/-- Report a fault unless a condition holds. -/
def require (holds : Bool) (line : Nat) (fault : Fault) : CheckM Unit :=
  if holds then pure () else site.report line fault

/-- The value has to suit the expected type. If it does not, types that do not
exist are reported as well. -/
def requireCompatible (line : Nat) (use : Use) (expected actual : Ty) : CheckM Unit := do
  if site.hierarchy.compatible expected actual then return
  else
    site.report line (.incompatible use expected actual)
    site.require (site.hierarchy.validType true expected) line (.unknownType expected)
    site.require (site.hierarchy.validType true actual) line (.unknownType actual)

/-- A predicate has to be a boolean. -/
def requireBoolean (line : Nat) (construct : Construct) (found : Ty) : CheckM Unit :=
  site.require (found == .boolean || found.isError) line (.notBoolean construct found)

/-- A quantity has to be an integer. -/
def requireInt (line : Nat) (quantity : Quantity) (found : Ty) : CheckM Unit :=
  site.require (found == .int || found.isError) line (.notInt quantity found)

/-- The written type if it exists, else the error type. -/
def writtenType (line : Nat) (place : TypePlace) (type : Ty) : CheckM Ty := do
  if site.hierarchy.validType false type then return type
  else
    site.report line (.invalidType type place)
    return .error

/-- The parent of the class. -/
def parent? : Option String :=
  site.hierarchy.parent? site.className

/-- The parent of the class, if it has one. -/
def superclass (line : Nat) : CheckM (Option String) := do
  match site.parent? with
  | some parent => return some parent
  | none =>
    site.report line (.noSuperclass site.className)
    return none

/-- The type of a field of a class. -/
def fieldType (line : Nat) (className name : String) : CheckM Ty := do
  match site.hierarchy.field? className name with
  | some type => return type
  | none =>
    site.report line (.undeclaredField name className)
    return .error

/-- The type of a variable: a local one, or else a field of the class. -/
def variableType (locals : Scopes Ty) (line : Nat) (name : String) : CheckM Ty := do
  match (locals.lookup name).or (site.hierarchy.field? site.className name) with
  | some type => return type
  | none =>
    site.report line (.undeclaredVariable name)
    return .error

/-- The type of a name in an expression, where `this` and `super` are names for
the current object. -/
def nameType (locals : Scopes Ty) (line : Nat) (name : String) : CheckM Ty := do
  if name = "this" then return .named site.className
  else if name = "super" then
    match ← site.superclass line with
    | some parent => return .named parent
    | none => return .error
  else site.variableType locals line name

/-- The type of the variable or field that an assignment stores into. -/
def targetType (locals : Scopes Ty) (line : Nat) (qualifier : Option String) (name : String) :
    CheckM Ty := do
  match qualifier with
  | none => site.variableType locals line name
  | some qualifier =>
    if qualifier = "this" then site.fieldType line site.className name
    else if qualifier = "super" then
      match ← site.superclass line with
      | some parent => site.fieldType line parent name
      | none => return .error
    else if site.hierarchy.contains qualifier then site.fieldType line qualifier name
    else
      site.report line (.undeclaredClass qualifier)
      return .error

/-- The type of a field of an object whose type is `found`. Arrays have a length
and no other field. -/
def accessType (line : Nat) (name : String) (found : Ty) : CheckM Ty := do
  match found with
  | .named className => site.fieldType line className name
  | .error => return .error
  | .array _ =>
    if name = "length" then return .int
    else
      site.report line (.noFields name found)
      return .error
  | _ =>
    site.report line (.noFields name found)
    return .error

/-- The type of the elements of the array `name`, whose type is `found`. -/
def elemType (line : Nat) (name : String) (found : Ty) : CheckM Ty := do
  match found with
  | .array elem => return elem
  | .error => return .error
  | _ =>
    site.report line (.notArray name found)
    return .error

/-- The class that a method is looked up in when it is called on a value of type
`found`. An array has the methods of the root class. -/
def receiverClass (line : Nat) (method : String) (found : Ty) : CheckM (Option String) := do
  match found with
  | .named className => return some className
  | .array _ => return some Ty.objectName
  | .error => return none
  | _ =>
    site.report line (.notCallable method found)
    return none

/-- Check arguments against parameters, counting from `position`. -/
def checkArguments (line : Nat) (method : String) :
    (position : Nat) → List Param → List Ty → CheckM Unit
  | position, param :: params, arg :: args => do
    site.requireCompatible line (.argument position method) param.type arg
    checkArguments line method (position + 1) params args
  | _, _, _ => return

/-- The type of a call of a method of a class. -/
def callType (line : Nat) (className method : String) (args : List Ty) : CheckM Ty := do
  match site.hierarchy.method? className method with
  | none =>
    site.report line (.noMethod method className)
    return .error
  | some sig =>
    if sig.params.length = args.length then site.checkArguments line method 1 sig.params args
    else site.report line (.argumentCount method sig.params.length args.length)
    return sig.returnType

/-- The type of a call on a receiver, whose class is unknown after a report. -/
def callTypeOn (line : Nat) (className : Option String) (method : String) (args : List Ty) :
    CheckM Ty :=
  match className with
  | some className => site.callType line className method args
  | none => return .error

/-- Whether values of two types can be compared for equality. -/
def comparable (left right : Ty) : Bool :=
  left.isPrimitive == right.isPrimitive && left != .void &&
    (site.hierarchy.compatible left right || site.hierarchy.compatible right left)

/-- The type of a binary expression, which depends on the operator only. -/
def binaryType (line : Nat) (op : BinaryOp) (left right : Ty) : CheckM Ty := do
  if left.isError || right.isError then return op.resultType
  else
    match op.operandType with
    | some required =>
      site.require (left == required && right == required) line
        (.binaryOperands op required left right)
    | none => site.require (site.comparable left right) line (.incomparable op left right)
    return op.resultType

/-- The type of a unary expression, which depends on the operator only. -/
def unaryType (line : Nat) (op : UnaryOp) (isPlace : Bool) (found : Ty) : CheckM Ty := do
  site.require (found == op.operandType || found.isError) line (.unaryOperand op found)
  site.require (!op.needsPlace || isPlace) line (.notPlace op)
  return op.operandType

/-- The type of a new object. -/
def newType (line : Nat) (className : String) : CheckM Ty := do
  if site.hierarchy.contains className then return .named className
  else
    site.report line (.invalidType (.named className) .new)
    return .error

/-- The type of a new array. -/
def newArrayType (line : Nat) (elem size : Ty) : CheckM Ty := do
  site.requireInt line .arraySize size
  let elem ← site.writtenType line .newArray elem
  return if elem.isError then .error else .array elem

/-- A type test is for references and gives a boolean. -/
def instanceOfType (line : Nat) (found target : Ty) : CheckM Ty := do
  if found.isError then return .boolean
  else if found.isPrimitive || target.isPrimitive then
    site.report line (.instanceOfPrimitive found target)
    return .boolean
  else
    let _ ← site.writtenType line .instanceOf target
    return .boolean

/-- The type of a cast, which is for references that are related. -/
def castType (line : Nat) (found target : Ty) : CheckM Ty := do
  if found.isPrimitive || target.isPrimitive then
    site.report line (.castPrimitive found target)
    return .error
  else
    let target ← site.writtenType line .cast target
    if target.isError then return .error
    else
      site.require
        (site.hierarchy.compatible target found || site.hierarchy.compatible found target) line
        (.castUnrelated found target)
      return target

end Site

end ClassLang.Typing
