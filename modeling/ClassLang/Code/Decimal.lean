/-
# Decimal numerals

Numerals in instruction text are plain runs of the ten digits: no sign, no
separators, and leading zeros are allowed. Values are unbounded here; the
callers state the range that they accept.
-/

namespace ClassLang.Code.Decimal

/-- The digits at the head of a text. -/
def digitsAt (text : List Char) : List Char :=
  text.takeWhile Char.isDigit

/-- The value of a nonempty text of digits. -/
def value? (text : List Char) : Option Nat :=
  if text ≠ [] ∧ text.all Char.isDigit then some (Nat.ofDigitChars 10 text 0) else none

/-- The numeral of a number, without leading zeros. -/
def numeral (n : Nat) : List Char :=
  Nat.toDigits 10 n

/-- Reading a numeral gives its number back. -/
theorem value?_numeral (n : Nat) : value? (numeral n) = some n := by
  have hdigits : (numeral n).all Char.isDigit = true := by
    rw [List.all_eq_true]
    intro c hc
    exact Nat.isDigit_of_mem_toDigits (by decide) (by decide) hc
  have hne : numeral n ≠ [] := Nat.toDigits_ne_nil
  rw [value?, if_pos ⟨hne, hdigits⟩]
  exact congrArg some Nat.ofDigitChars_ten_toDigits

end ClassLang.Code.Decimal
