/-
# Compatible and valid types

A value may be used where a wider type is expected: a class stands for its
subclasses, `null` belongs to all class and array types, every array is an
object, and arrays of references vary with their elements. The error type goes
with everything, so that a reported expression is not reported again.
-/

import ClassLang.Hierarchy.Basic

namespace ClassLang.Hierarchy

/-- Whether a value of type `actual` may be used where `expected` is asked for. -/
def compatible (hierarchy : Hierarchy) : (expected actual : Ty) → Bool
  | .error, _ => true
  | _, .error => true
  | .array elem, .array other =>
    elem == other || (elem.isReference && other.isReference && hierarchy.compatible elem other)
  | .named _, .null => true
  | .array _, .null => true
  | .named className, .array _ => className == Ty.objectName
  | .named className, .named other => className == other || hierarchy.isSubclass other className
  | expected, actual => expected == actual

/-- Whether a written type exists. The type `void` does only where allowed, and
never as the type of array elements. -/
def validType (hierarchy : Hierarchy) (allowVoid : Bool) : Ty → Bool
  | .void => allowVoid
  | .named className => hierarchy.contains className
  | .array elem => hierarchy.validType false elem
  | .int | .boolean | .null | .error => true

/-- Every type is compatible with itself. -/
theorem compatible_refl (hierarchy : Hierarchy) (ty : Ty) : hierarchy.compatible ty ty = true := by
  cases ty <;> simp [compatible]

/-- Which types exist depends only on which classes do. -/
theorem validType_congr {hierarchy other : Hierarchy}
    (hcontains : other.contains = hierarchy.contains) : other.validType = hierarchy.validType := by
  funext allowVoid type
  induction type generalizing allowVoid with
  | named className => exact congrFun hcontains className
  | array elem ih => exact ih false
  | void | int | boolean | null | error => rfl

end ClassLang.Hierarchy
