/-
# Types of the class language

Value types are the primitives `int` and `boolean`, class types named by their
class, arrays, and the type of `null`. `void` is the return type of a method
without a result. The type `error` marks an expression that has already been
reported, so that nothing that contains it is reported again.
-/

namespace ClassLang

/-- A type as it is written in a declaration or found for an expression. -/
inductive Ty where
  | void
  | int
  | boolean
  | null
  | named (className : String)
  | array (elem : Ty)
  | error
  deriving DecidableEq, Repr

namespace Ty

/-- The name of the class at the root of every class tree. -/
def objectName : String := "Object"

/-- The root class as a type. -/
def object : Ty := named objectName

/-- The type of string constants. -/
def string : Ty := named "String"

/-- The text of a type in messages and listings. -/
def text : Ty → String
  | void => "void"
  | int => "int"
  | boolean => "boolean"
  | null => "null"
  | named className => className
  | array elem => elem.text ++ "[]"
  | error => "<error>"

/-- Primitive types hold no object. The type `void` counts among them, since no
value of a class can stand where it is written. -/
def isPrimitive : Ty → Bool
  | int | boolean | void => true
  | _ => false

/-- Reference types are those whose values may be `null`. -/
def isReference : Ty → Bool
  | named _ | array _ | null => true
  | _ => false

/-- Whether this is the type of an expression that was already reported. -/
def isError : Ty → Bool
  | error => true
  | _ => false

@[simp]
theorem isError_iff (ty : Ty) : ty.isError = true ↔ ty = error := by
  cases ty <;> simp [isError]

end Ty

end ClassLang
