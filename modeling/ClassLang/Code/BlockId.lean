/-
# Block numbers

Blocks are known by 32-bit numbers, written with a leading `B`.
-/

import ClassLang.Code.Decimal

namespace ClassLang.Code

/-- The number of a block. -/
structure BlockId where
  index : UInt32
  deriving DecidableEq, Repr

namespace BlockId

/-- The number as an index into a list of blocks. -/
def toNat (id : BlockId) : Nat :=
  id.index.toNat

/-- The block number of an index; indices are taken modulo the word size. -/
def ofNat (n : Nat) : BlockId :=
  ⟨UInt32.ofNat n⟩

/-- The characters of a block number. -/
def chars (id : BlockId) : List Char :=
  'B' :: Decimal.numeral id.toNat

/-- The text of a block number. -/
def text (id : BlockId) : String :=
  String.ofList id.chars

/-- Read a block number: the letter `B`, then a decimal numeral that fits the word. -/
def ofText? (text : String) : Option BlockId :=
  match text.toList with
  | 'B' :: digits =>
    match Decimal.value? digits with
    | some n => if n < UInt32.size then some (ofNat n) else none
    | none => none
  | _ => none

theorem toNat_lt (id : BlockId) : id.toNat < UInt32.size :=
  id.index.toNat_lt_size

@[simp]
theorem ofNat_toNat (id : BlockId) : ofNat id.toNat = id := by
  simp [ofNat, toNat]

theorem toNat_ofNat {n : Nat} (hn : n < UInt32.size) : (ofNat n).toNat = n := by
  exact Nat.mod_eq_of_lt hn

/-- A written block number is read back. -/
theorem ofText?_text (id : BlockId) : ofText? id.text = some id := by
  simp only [ofText?, text, chars, String.toList_ofList, Decimal.value?_numeral,
    if_pos id.toNat_lt, ofNat_toNat]

end BlockId

end ClassLang.Code
