/-
# Scanning instruction text

A scan cuts a text into lexemes, each a token with the place where it starts.
Blanks between tokens are dropped. The scan ends at the first place where no
token begins, and then records that place; all places count the bytes of the
UTF-8 form of the text.
-/

import ClassLang.Code.Token

namespace ClassLang.Code

/-- The number of bytes that characters take in UTF-8. -/
def byteLength : List Char → Nat
  | [] => 0
  | c :: rest => c.utf8Size + byteLength rest

/-- A token at its place in a text. -/
structure Lexeme where
  kind : TokenKind
  /-- The byte offset of the first character. -/
  start : Nat
  text : String
  deriving DecidableEq, Repr

/-- The lexemes of a text, and the byte offset where scanning failed, if it did. -/
structure Scan where
  lexemes : List Lexeme
  failedAt : Option Nat
  deriving DecidableEq, Repr

namespace Scan

/-- Scan the rest of a text that starts at byte `offset`. -/
def scanFrom (offset : Nat) : List Char → Scan
  | [] => ⟨[], none⟩
  | c :: rest =>
    if isBlank c then scanFrom (offset + c.utf8Size) rest
    else
      match _htoken : Token.at? (c :: rest) with
      | none => ⟨[], some offset⟩
      | some token =>
        let tail := scanFrom (offset + byteLength token.chars)
          ((c :: rest).drop token.chars.length)
        ⟨⟨token.kind, offset, String.ofList token.chars⟩ :: tail.lexemes, tail.failedAt⟩
termination_by text => text.length
decreasing_by
  · simp
  · have hpos := List.length_pos_iff.mpr (Token.chars_ne_nil_of_at? _htoken)
    simp only [List.length_drop, List.length_cons]
    omega

/-- Scan a whole text. -/
def ofText (text : String) : Scan :=
  scanFrom 0 text.toList

end Scan

end ClassLang.Code
