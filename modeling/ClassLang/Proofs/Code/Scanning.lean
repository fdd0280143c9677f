/-
# Texts cut into tokens

A text written token by token scans to those tokens as long as no token can reach
into what follows it. The relation `Scans` says so one token at a time and leaves
the places of lexemes out; the scanner finds tokens just where it holds. Whatever the
text, a comment does not reach over a line end, and a token is what its characters are
when they stand alone, unless a temporary follows it directly.
-/

import Mathlib.Data.List.Chain
import ClassLang.Proofs.Code.Lexing

namespace ClassLang.Code

/-- The token of a lexeme, without its place. -/
def Lexeme.token (lexeme : Lexeme) : Token :=
  ⟨lexeme.kind, lexeme.text.toList⟩

theorem Lexeme.token_eq_iff {lexeme : Lexeme} {kind : TokenKind} {text : String} :
    lexeme.token = ⟨kind, text.toList⟩ ↔ lexeme.kind = kind ∧ lexeme.text = text := by
  simp [Lexeme.token, String.toList_inj]

/-- A text that falls into these tokens, with blanks between them. -/
inductive Scans : List Char → List Token → Prop
  | nil : Scans [] []
  | blank {c : Char} {rest : List Char} {tokens : List Token} (hblank : isBlank c = true)
      (hrest : Scans rest tokens) : Scans (c :: rest) tokens
  | token {token : Token} {rest : List Char} {tokens : List Token}
      (htoken : Token.at? (token.chars ++ rest) = some token) (hrest : Scans rest tokens) :
      Scans (token.chars ++ rest) (token :: tokens)

/-- No token starts with a blank. -/
theorem at?_eq_none_of_isBlank {c : Char} (rest : List Char) (hblank : isBlank c = true) :
    Token.at? (c :: rest) = none := by
  simp only [isBlank, Bool.or_eq_true, beq_iff_eq] at hblank
  rcases hblank with (((rfl | rfl) | rfl) | rfl) | rfl <;>
    simp [Token.at?, isNameStart, symbolToken?, Symbol.at?, Symbol.all, Symbol.chars]

theorem Scan.scanFrom_token {token : Token} {rest : List Char}
    (htoken : Token.at? (token.chars ++ rest) = some token) (offset : Nat) :
    Scan.scanFrom offset (token.chars ++ rest) =
      let tail := Scan.scanFrom (offset + byteLength token.chars) rest
      ⟨⟨token.kind, offset, String.ofList token.chars⟩ :: tail.lexemes, tail.failedAt⟩ := by
  obtain ⟨c, tail, hchars⟩ := List.exists_cons_of_ne_nil (Token.chars_ne_nil_of_at? htoken)
  have hblank : ¬ isBlank c = true := by
    intro hblank
    rw [hchars, List.cons_append, at?_eq_none_of_isBlank _ hblank] at htoken
    cases htoken
  have htext : token.chars ++ rest = c :: (tail ++ rest) := by rw [hchars, List.cons_append]
  have hdrop : (c :: (tail ++ rest)).drop token.chars.length = rest := by
    rw [← htext, List.drop_left]
  rw [htext] at htoken ⊢
  rw [Scan.scanFrom, if_neg hblank]
  split
  next hnone => simp [htoken] at hnone
  next found hfound =>
    obtain rfl : token = found := by simpa [htoken] using hfound
    rw [hdrop]

/-- The scanner finds the tokens that a text falls into, and no others. -/
theorem scanFrom_of_scans {text : List Char} {tokens : List Token} (hscans : Scans text tokens)
    (offset : Nat) : (Scan.scanFrom offset text).failedAt = none ∧
      (Scan.scanFrom offset text).lexemes.map Lexeme.token = tokens := by
  induction hscans generalizing offset with
  | nil => simp [Scan.scanFrom]
  | blank hblank hrest ih =>
      rw [Scan.scanFrom, if_pos hblank]
      exact ih _
  | token htoken hrest ih =>
      rw [Scan.scanFrom_token htoken]
      simp only [List.map_cons, Lexeme.token, String.toList_ofList]
      exact ⟨(ih _).1, by rw [← (ih _).2]⟩

/-! ## One token at a time -/

/-- Whether a character makes a symbol before it part of a longer token. -/
def Symbol.growsBy : Symbol → Char → Bool
  | assign, c | bang, c | less, c | greater, c => '=' == c
  | ampersand, c => '&' == c
  | slash, c => c == '/'
  | minus, c => c.isDigit
  | _, _ => false

/-- The token of a symbol. -/
def Symbol.token (symbol : Symbol) : Token :=
  ⟨.symbol symbol, symbol.chars⟩

theorem Symbol.at?_append {symbol : Symbol} {rest : List Char}
    (hrest : ∀ c ∈ rest.head?, symbol.growsBy c = false) :
    Symbol.at? (symbol.chars ++ rest) = some symbol := by
  cases rest with
  | nil => cases symbol <;> rfl
  | cons c rest =>
      have hc := hrest c rfl
      cases symbol <;>
        simp_all [Symbol.growsBy, Symbol.at?, Symbol.all, Symbol.chars]

theorem at?_symbol_append {symbol : Symbol} {rest : List Char}
    (hrest : ∀ c ∈ rest.head?, symbol.growsBy c = false) :
    Token.at? (symbol.chars ++ rest) = some symbol.token := by
  have hsymbol : symbolToken? (symbol.chars ++ rest) = some symbol.token := by
    rw [symbolToken?, Symbol.at?_append hrest, Option.map_some, Symbol.token]
  rw [← hsymbol]
  cases rest with
  | nil => cases symbol <;> rfl
  | cons c rest =>
      have hc := hrest c rfl
      cases symbol <;>
        simp_all [Symbol.growsBy, Token.at?, isNameStart, Symbol.chars, Decimal.digitsAt]

theorem at?_comment_append {body rest : List Char} (hbody : '\n' ∉ body)
    (hline : ∀ c ∈ rest.head?, c = '\n') :
    Token.at? ('/' :: '/' :: (body ++ rest)) = some ⟨.comment, '/' :: '/' :: body⟩ := by
  have hwhole : (body ++ rest).takeWhile (· != '\n') = body := by
    apply takeWhile_run_append
    · intro c hc
      simpa using ne_of_mem_of_not_mem hc hbody
    · intro c hc
      simp [hline c hc]
  simp [Token.at?, isNameStart, hwhole]

namespace Scans

variable {rest : List Char} {tokens : List Token}

theorem space (hrest : Scans rest tokens) : Scans (' ' :: rest) tokens :=
  .blank rfl hrest

theorem written {kind : TokenKind} {chars : List Char} (hform : Written kind chars)
    (hdelimits : Delimits rest) (hrest : Scans rest tokens) :
    Scans (chars ++ rest) (⟨kind, chars⟩ :: tokens) :=
  @token ⟨kind, chars⟩ rest tokens (at?_of_written hform hdelimits) hrest

theorem symbol {symbol : Symbol} (hsymbol : ∀ c ∈ rest.head?, symbol.growsBy c = false)
    (hrest : Scans rest tokens) : Scans (symbol.chars ++ rest) (symbol.token :: tokens) :=
  @token symbol.token rest tokens (at?_symbol_append hsymbol) hrest

end Scans

/-! ## Tokens of any text -/

/-- A text that is scanned to its end falls into the tokens that are found. -/
theorem scans_of_scanFrom {offset : Nat} {text : List Char}
    (hscan : (Scan.scanFrom offset text).failedAt = none) :
    Scans text ((Scan.scanFrom offset text).lexemes.map Lexeme.token) := by
  fun_induction Scan.scanFrom offset text with
  | case1 => exact .nil
  | case2 offset c rest hblank ih => exact .blank hblank (ih hscan)
  | case3 => cases hscan
  | case4 offset c rest hblank token htoken tail ih =>
      obtain ⟨after, hafter, _⟩ := found_of_at? htoken
      have hrest : Scans after (tail.lexemes.map Lexeme.token) := by
        rw [← @List.drop_left _ token.chars after, ← hafter]
        exact ih hscan
      have hlexeme : Lexeme.token ⟨token.kind, offset, String.ofList token.chars⟩ = token := by
        rw [Lexeme.token, String.toList_ofList]
      rw [List.map_cons, hlexeme, hafter]
      rw [hafter] at htoken
      exact .token htoken hrest

theorem Scans.exists_found {text : List Char} {tokens : List Token} (hscans : Scans text tokens) :
    ∀ token ∈ tokens, ∃ rest, Found token rest := by
  induction hscans with
  | nil => exact fun token htoken => absurd htoken List.not_mem_nil
  | blank _ _ ih => exact ih
  | token htoken _ ih =>
      obtain ⟨rest, _, hfound⟩ := found_of_at? htoken
      exact List.forall_mem_cons.mpr ⟨⟨rest, hfound⟩, ih⟩

theorem Scans.token_eq_symbol {text : List Char} {tokens : List Token}
    (hscans : Scans text tokens) {token : Token} (htoken : token ∈ tokens) {symbol : Symbol}
    (hkind : token.kind = .symbol symbol) : token = symbol.token := by
  obtain ⟨_, hfound⟩ := hscans.exists_found token htoken
  cases hfound with
  | written hform => exact absurd hkind (hform.kind_ne.2 symbol)
  | stub => cases hkind
  | symbol found =>
      cases hkind
      rfl
  | comment => cases hkind

theorem Scans.exists_comment {text : List Char} {tokens : List Token}
    (hscans : Scans text tokens) {token : Token} (htoken : token ∈ tokens)
    (hkind : token.kind = .comment) : ∃ body, token = ⟨.comment, '/' :: '/' :: body⟩ := by
  obtain ⟨_, hfound⟩ := hscans.exists_found token htoken
  cases hfound with
  | written hform => exact absurd hkind hform.kind_ne.1
  | stub => cases hkind
  | symbol => cases hkind
  | @comment body => exact ⟨body, rfl⟩

theorem kind_of_at?_dollar {rest : List Char} {token : Token}
    (htoken : Token.at? ('$' :: rest) = some token) : token.kind = .temp := by
  cases rest with
  | nil => simp [Token.at?, isNameStart] at htoken
  | cons c rest =>
      obtain ⟨_, rfl⟩ : ((c = 't' ∨ c = 'o') ∧ Decimal.digitsAt rest ≠ []) ∧
          (⟨.temp, '$' :: c :: Decimal.digitsAt rest⟩ : Token) = token := by
        simpa [Token.at?, isNameStart] using htoken
      rfl

/-- A dot begins no token, and a dollar sign begins only a temporary. -/
theorem Scans.exists_temp {rest : List Char} {tokens : List Token} (hscans : Scans rest tokens)
    (hhead : ∃ c ∈ rest.head?, c = '.' ∨ c = '$') :
    ∃ next more, tokens = next :: more ∧ next.kind = .temp := by
  obtain ⟨c, hc, hsign⟩ := hhead
  cases hscans with
  | nil => cases hc
  | blank hblank =>
      obtain rfl := Option.some.inj hc
      rcases hsign with rfl | rfl <;> cases hblank
  | @token token rest tokens htoken =>
      obtain ⟨tail, htail⟩ := List.head?_eq_some_iff.mp hc
      refine ⟨token, tokens, rfl, ?_⟩
      rw [htail] at htoken
      rcases hsign with rfl | rfl
      · simp [Token.at?, isNameStart, symbolToken?, Symbol.at?, Symbol.all, Symbol.chars] at htoken
      · exact kind_of_at?_dollar htoken

/-- A token that stands alone is found as what it is. -/
theorem Scans.isChain_alone {text : List Char} {tokens : List Token} (hscans : Scans text tokens) :
    tokens.IsChain fun token next => Token.at? token.chars = some token ∨ next.kind = .temp := by
  induction hscans with
  | nil => exact .nil
  | blank _ _ ih => exact ih
  | @token token rest tokens htoken hrest ih =>
      cases tokens with
      | nil => exact .singleton token
      | cons next more =>
          refine .cons_cons ?_ ih
          obtain ⟨after, hafter, hfound⟩ := found_of_at? htoken
          obtain rfl := List.append_cancel_left hafter
          cases hfound with
          | written hform =>
              have halone := at?_of_written hform delimits_nil
              rw [List.append_nil] at halone
              exact .inl halone
          | stub _ hhead =>
              obtain ⟨_, _, hcons, htemp⟩ := hrest.exists_temp hhead
              cases hcons
              exact .inr htemp
          | symbol symbol =>
              have halone := @at?_symbol_append symbol [] fun c hc => absurd hc (by simp)
              rw [List.append_nil] at halone
              exact .inl halone
          | @comment body _ hbody =>
              have halone := @at?_comment_append body [] hbody fun c hc => absurd hc (by simp)
              rw [List.append_nil] at halone
              exact .inl halone

/-! ## Comments end with their line -/

theorem newline_notMem_of_at?_comment {text : List Char} {token : Token}
    (htoken : Token.at? text = some token) (hcomment : token.kind = .comment) :
    '\n' ∉ token.chars := by
  obtain ⟨_, _, hfound⟩ := found_of_at? htoken
  cases hfound with
  | written hform => exact absurd hcomment hform.kind_ne.1
  | stub => cases hcomment
  | symbol => cases hcomment
  | comment hbody => simpa using hbody

theorem newline_notMem_of_mem_lexemes {text : List Char} {offset : Nat} {lexeme : Lexeme}
    (hmem : lexeme ∈ (Scan.scanFrom offset text).lexemes) (hcomment : lexeme.kind = .comment) :
    '\n' ∉ lexeme.text.toList := by
  fun_induction Scan.scanFrom offset text with
  | case1 => cases hmem
  | case2 offset c rest hblank ih => exact ih hmem
  | case3 => cases hmem
  | case4 offset c rest hblank token htoken tail ih =>
      rcases List.mem_cons.mp hmem with rfl | htail
      · rw [String.toList_ofList]
        exact newline_notMem_of_at?_comment htoken hcomment
      · exact ih htail

end ClassLang.Code
