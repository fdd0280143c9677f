/-
# Operands

An operand is a text of its own. Its kind is read off the one token that must
make up the whole text. Each place of an instruction states a class of operands
that it accepts; classes look at the kind only.
-/

import ClassLang.Code.Token

namespace ClassLang.Code

/-- What an operand denotes. -/
inductive OperandKind where
  | var
  | int (value : Int)
  | bool
  | str
  | null
  | label
  deriving DecidableEq, Repr

/-- The operands that a place accepts. -/
inductive OperandClass where
  | var
  /-- A variable or any constant. -/
  | value
  | constant
  | varOrInt
  | varOrBool
  /-- A variable or a non-negative integer. -/
  | varOrIndex
  | label
  deriving DecidableEq, Repr

/-- Whether a number fits a signed 32-bit word. -/
def fitsWord (value : Int) : Bool :=
  -2147483648 ≤ value && value ≤ 2147483647

/-- The value of an integer numeral, with or without a minus sign. -/
def intValue? : List Char → Option Int
  | [] => none
  | c :: digits =>
    if c = '-' then (Decimal.value? digits).map fun n => -(n : Int)
    else (Decimal.value? (c :: digits)).map fun n => (n : Int)

namespace OperandKind

/-- The kind of an operand that is made of one token. Integers outside the range
of a word, symbols and comments are no operands. -/
def ofToken? (token : Token) : Option OperandKind :=
  match token.kind with
  | .thisWord | .var | .temp => some .var
  | .int => ((intValue? token.chars).filter fitsWord).map .int
  | .trueWord | .falseWord => some .bool
  | .str => some .str
  | .nullWord => some .null
  | .name | .dotted => some .label
  | .symbol _ | .comment => none

/-- The kind of an operand, if its whole text is one token of a fitting form. -/
def of? (operand : String) : Option OperandKind :=
  match Token.at? operand.toList with
  | some token => if token.chars = operand.toList then ofToken? token else none
  | none => none

end OperandKind

/-- Whether a text is a variable. -/
def isVariable (operand : String) : Bool :=
  OperandKind.of? operand == some .var

namespace OperandClass

/-- All classes. -/
def all : List OperandClass :=
  [var, value, constant, varOrInt, varOrBool, varOrIndex, label]

/-- Whether a class has operands of this kind. -/
def admits : OperandClass → OperandKind → Bool
  | var, .var => true
  | value, kind => kind != .label
  | constant, kind => kind != .label && kind != .var
  | varOrInt, .var | varOrInt, .int _ => true
  | varOrBool, .var | varOrBool, .bool => true
  | varOrIndex, .var => true
  | varOrIndex, .int n => 0 ≤ n
  | label, .label => true
  | _, _ => false

/-- Whether a class accepts an operand. -/
def accepts (expected : OperandClass) (operand : String) : Bool :=
  (OperandKind.of? operand).any expected.admits

/-- The wording of a class in messages. -/
def text : OperandClass → String
  | var => "a variable"
  | value => "a variable or constant"
  | constant => "a constant"
  | varOrInt => "a variable or int constant"
  | varOrBool => "a variable or boolean constant"
  | varOrIndex => "a variable or non-negative int constant"
  | label => "a label"

theorem mem_all (expected : OperandClass) : expected ∈ all := by
  cases expected <;> decide

/-- A class accepts exactly the operands of the kinds that it admits. -/
theorem accepts_iff (expected : OperandClass) (operand : String) :
    expected.accepts operand = true ↔
      ∃ kind, OperandKind.of? operand = some kind ∧ expected.admits kind = true := by
  simp [accepts, Option.any_eq_true]

end OperandClass

end ClassLang.Code
