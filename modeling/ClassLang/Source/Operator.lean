/-
# Operators

The table of operators of the language. An operator fixes the type of its
result, so an ill-typed operand never hides what the whole expression is.
-/

import ClassLang.Source.Ty

namespace ClassLang

/-- Operators with two operands. -/
inductive BinaryOp where
  | add | sub | mul | div | mod
  | eq | ne | lt | le | gt | ge
  | and | or
  deriving DecidableEq, Repr

namespace BinaryOp

/-- All binary operators, arithmetic first, then comparisons, then logic. -/
def all : List BinaryOp :=
  [add, sub, mul, div, mod, eq, ne, lt, le, gt, ge, and, or]

/-- The operator as it is written. -/
def symbol : BinaryOp → String
  | add => "+"
  | sub => "-"
  | mul => "*"
  | div => "/"
  | mod => "%"
  | eq => "=="
  | ne => "!="
  | lt => "<"
  | le => "<="
  | gt => ">"
  | ge => ">="
  | and => "&&"
  | or => "||"

/-- The type that both operands must have. Equality asks for no fixed type: it
compares any two values whose types are related. -/
def operandType : BinaryOp → Option Ty
  | add | sub | mul | div | mod | lt | le | gt | ge => some .int
  | and | or => some .boolean
  | eq | ne => none

/-- The type of the result. -/
def resultType : BinaryOp → Ty
  | add | sub | mul | div | mod => .int
  | _ => .boolean

/-- Every operator is listed. -/
theorem mem_all (op : BinaryOp) : op ∈ all := by
  cases op <;> decide

end BinaryOp

/-- Operators with one operand. -/
inductive UnaryOp where
  | neg | not | preIncr | preDecr | postIncr | postDecr
  deriving DecidableEq, Repr

namespace UnaryOp

/-- All unary operators, the pure ones first. -/
def all : List UnaryOp :=
  [neg, not, preIncr, preDecr, postIncr, postDecr]

/-- The operator as it is written. -/
def symbol : UnaryOp → String
  | neg => "-"
  | not => "!"
  | preIncr | postIncr => "++"
  | preDecr | postDecr => "--"

/-- The type of the operand, which is also the type of the result. -/
def operandType : UnaryOp → Ty
  | not => .boolean
  | _ => .int

/-- Increment and decrement store into their operand. -/
def needsPlace : UnaryOp → Bool
  | neg | not => false
  | _ => true

/-- Every operator is listed. -/
theorem mem_all (op : UnaryOp) : op ∈ all := by
  cases op <;> decide

end UnaryOp

end ClassLang
