/-
# Method signatures

A signature records everything that a call needs to know about a method, and
where the method was declared. Overriding compares only the types, never the
names of parameters or the place of declaration.
-/

import ClassLang.Source.Ty

namespace ClassLang

/-- A formal parameter of a method. -/
structure Param where
  name : String
  type : Ty
  deriving DecidableEq, Repr

/-- A method as seen by its callers. -/
structure Signature where
  name : String
  /-- The class whose declaration introduced the method. -/
  className : String
  params : List Param
  returnType : Ty
  line : Nat
  deriving DecidableEq, Repr

namespace Signature

/-- The parameter types in order. -/
def paramTypes (sig : Signature) : List Ty :=
  sig.params.map Param.type

/-- Two signatures agree when their parameter types and return types are equal. -/
def agrees (sig other : Signature) : Bool :=
  sig.returnType == other.returnType && sig.paramTypes == other.paramTypes

/-- The text of a signature: `name(T1, T2): R`. -/
def text (sig : Signature) : String :=
  sig.name ++ "(" ++ ", ".intercalate (sig.paramTypes.map Ty.text) ++ "): " ++ sig.returnType.text

/-- Agreement is equality of what a caller can see of the types. -/
theorem agrees_iff (sig other : Signature) :
    sig.agrees other = true ↔
      sig.returnType = other.returnType ∧ sig.paramTypes = other.paramTypes := by
  simp [agrees]

end Signature

end ClassLang
