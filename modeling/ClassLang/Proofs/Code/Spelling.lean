/-
# Spellings of operations

An operation can be spelled in other ways than it is written: a negated integer may do
without its parentheses, and a block number may start with zeros. Normal spelling takes
both back. The tokens whose normal spelling is that of the written operation are listed
here, and the reader recognises the operation in each of them.
-/

import Mathlib.Tactic.IntervalCases
import ClassLang.Proofs.Code.RoundTrip

namespace ClassLang.Code

/-! ## Numerals with leading zeros -/

namespace Decimal

/-- A numeral without the zeros that stand before other digits. -/
def trim : List Char → List Char
  | [] => []
  | c :: rest => if c = '0' ∧ rest ≠ [] then trim rest else c :: rest

theorem digitChar_of_isDigit {c : Char} (hc : c.isDigit = true) :
    c.toNat - '0'.toNat < 10 ∧ Nat.digitChar (c.toNat - '0'.toNat) = c := by
  have hrange : 48 ≤ c.toNat ∧ c.toNat ≤ 57 := by
    simpa [Char.isDigit, UInt32.le_iff_toNat_le] using hc
  obtain ⟨hlow, hhigh⟩ := hrange
  have hof := Char.ofNat_toNat c
  generalize c.toNat = n at hof hlow hhigh
  subst hof
  interval_cases n <;> decide

/-- Digits after a numeral that does not start with a zero. -/
theorem toDigits_append {digits : List Char} (hdigits : ∀ c ∈ digits, c.isDigit = true)
    {value : Nat} (hpos : 0 < value) :
    Nat.toDigits 10 value ++ digits = Nat.toDigits 10 (Nat.ofDigitChars 10 digits value) := by
  induction digits generalizing value with
  | nil => exact List.append_nil _
  | cons c digits ih =>
      rw [List.forall_mem_cons] at hdigits
      obtain ⟨hlt, hchar⟩ := digitChar_of_isDigit hdigits.1
      have hstep : Nat.toDigits 10 value ++ [c] =
          Nat.toDigits 10 (10 * value + (c.toNat - '0'.toNat)) := by
        rw [← Nat.toDigits_append_toDigits (by decide) hpos hlt, Nat.toDigits_of_lt_base hlt, hchar]
      rw [Nat.ofDigitChars_cons, ← ih hdigits.2 (by omega), ← hstep, List.append_assoc]
      rfl

/-- Without the zeros a numeral is the one that is written for its value. -/
theorem numeral_ofDigitChars {digits : List Char} (hne : digits ≠ [])
    (hdigits : ∀ c ∈ digits, c.isDigit = true) :
    numeral (Nat.ofDigitChars 10 digits 0) = trim digits := by
  induction digits with
  | nil => exact absurd rfl hne
  | cons c rest ih =>
      rw [List.forall_mem_cons] at hdigits
      obtain ⟨hlt, hchar⟩ := digitChar_of_isDigit hdigits.1
      rw [trim, Nat.ofDigitChars_cons, Nat.mul_zero, Nat.zero_add]
      split
      next hzero =>
        rw [hzero.1, Nat.sub_self]
        exact ih hzero.2 hdigits.2
      next hfirst =>
        by_cases hpos : 0 < c.toNat - '0'.toNat
        · rw [numeral, ← toDigits_append hdigits.2 hpos, Nat.toDigits_of_lt_base hlt, hchar]
          rfl
        · have hzero : c.toNat - '0'.toNat = 0 := Nat.eq_zero_of_not_pos hpos
          rw [hzero] at hchar
          obtain rfl : rest = [] := by
            by_contra hrest
            exact hfirst ⟨hchar.symm, hrest⟩
          rw [hzero, ← hchar]
          rfl

end Decimal

/-! ## Normal spelling -/

/-- A block number without leading zeros; any other token as it is. -/
def Token.unpadded (token : Token) : Token :=
  if token.kind = .name ∧ token.chars.head? = some 'B' ∧ isNumeral token.chars.tail = true then
    ⟨.name, 'B' :: Decimal.trim token.chars.tail⟩
  else token

/-- Whether a token is a word that a block number follows. -/
def Token.isJump (token : Token) : Bool :=
  token == wordOf "goto" || token == wordOf "else"

/-- Tokens after a given one, block numbers without leading zeros. -/
def unpaddedAfter : Token → List Token → List Token
  | _, [] => []
  | before, token :: rest =>
    (if before.isJump then token.unpadded else token) :: unpaddedAfter token rest

/-- Tokens, block numbers after `goto` and `else` without leading zeros. -/
def unpadded : List Token → List Token
  | [] => []
  | token :: rest => token :: unpaddedAfter token rest

/-- Tokens, an integer that is negated in parentheses. -/
def parenthesized : List Token → List Token
  | dest :: sign :: minus :: value :: rest =>
    if sign = Symbol.assign.token ∧ minus = Symbol.minus.token ∧ value.kind = .int then
      dest :: sign :: minus :: Symbol.openParen.token :: value :: Symbol.closeParen.token :: rest
    else dest :: sign :: minus :: value :: rest
  | tokens => tokens

/-- The tokens that a writer would use for the same operation. -/
def normalized (tokens : List Token) : List Token :=
  unpadded (parenthesized tokens)

/-! ## Block numbers -/

theorem isNumeral_iff {digits : List Char} :
    isNumeral digits = true ↔ digits ≠ [] ∧ ∀ c ∈ digits, c.isDigit = true := by
  simp [isNumeral]

theorem Decimal.value?_eq_some_iff {digits : List Char} {n : Nat} :
    Decimal.value? digits = some n ↔
      isNumeral digits = true ∧ Nat.ofDigitChars 10 digits 0 = n := by
  rw [Decimal.value?, Option.ite_none_right_eq_some, isNumeral_iff, List.all_eq_true,
    Option.some_inj]

theorem Decimal.numeral_injective {n m : Nat}
    (heq : Decimal.numeral n = Decimal.numeral m) : n = m := by
  have hvalue := Decimal.value?_numeral n
  rw [heq, Decimal.value?_numeral] at hvalue
  exact (Option.some.inj hvalue).symm

theorem BlockId.ofText?_eq_some_iff {text : String} {id : BlockId} :
    BlockId.ofText? text = some id ↔
      ∃ digits, text.toList = 'B' :: digits ∧ Decimal.value? digits = some id.toNat := by
  constructor
  · intro hread
    unfold BlockId.ofText? at hread
    split at hread
    next digits htext =>
      split at hread
      next n hvalue =>
        obtain ⟨hlt, hid⟩ := Option.ite_none_right_eq_some.mp hread
        obtain rfl := Option.some.inj hid
        refine ⟨digits, htext, ?_⟩
        rw [hvalue, BlockId.toNat_ofNat hlt]
      next => cases hread
    next => cases hread
  · rintro ⟨digits, htext, hvalue⟩
    simp only [BlockId.ofText?, htext, hvalue, if_pos id.toNat_lt, BlockId.ofNat_toNat]

/-- A token becomes a block number in this way just when it is read as that block. -/
theorem Token.unpadded_eq_block_iff {token : Token} {id : BlockId} :
    token.unpadded = id.token ↔
      token.kind = .name ∧ BlockId.ofText? (String.ofList token.chars) = some id := by
  rw [BlockId.ofText?_eq_some_iff, String.toList_ofList]
  constructor
  · intro heq
    unfold Token.unpadded at heq
    split at heq
    next hblock =>
      obtain ⟨hkind, hhead, hdigits⟩ := hblock
      obtain ⟨digits, hchars⟩ := List.head?_eq_some_iff.mp hhead
      rw [hchars, List.tail_cons] at hdigits heq
      have hnumeral := isNumeral_iff.mp hdigits
      have htrim : Decimal.trim digits = Decimal.numeral id.toNat :=
        (List.cons.inj (congrArg Token.chars heq)).2
      rw [← Decimal.numeral_ofDigitChars hnumeral.1 hnumeral.2] at htrim
      have hvalue := Decimal.numeral_injective htrim
      exact ⟨hkind, digits, hchars, Decimal.value?_eq_some_iff.mpr ⟨hdigits, hvalue⟩⟩
    next =>
      rw [heq]
      exact ⟨rfl, _, rfl, Decimal.value?_numeral _⟩
  · rintro ⟨hkind, digits, hchars, hvalue⟩
    obtain ⟨hdigits, hvalue⟩ := Decimal.value?_eq_some_iff.mp hvalue
    have hnumeral := isNumeral_iff.mp hdigits
    rw [Token.unpadded, hchars, if_pos ⟨hkind, rfl, hdigits⟩, List.tail_cons,
      ← Decimal.numeral_ofDigitChars hnumeral.1 hnumeral.2, hvalue]
    rfl

theorem Token.kind_unpadded (token : Token) : token.unpadded.kind = token.kind := by
  unfold Token.unpadded
  split
  next hblock => exact hblock.1.symm
  next => rfl

theorem Token.unpadded_of_ne_name {token : Token} (hkind : token.kind ≠ .name) :
    token.unpadded = token :=
  if_neg fun hblock => hkind hblock.1

theorem BlockId.unpadded_token (id : BlockId) : id.token.unpadded = id.token :=
  Token.unpadded_eq_block_iff.mpr ⟨rfl, id.ofText?_text⟩

theorem Token.isJump_of_ne_name {token : Token} (hkind : token.kind ≠ .name) :
    token.isJump = false := by
  have hne (word : String) : (token == wordOf word) = false := by
    rw [beq_eq_false_iff_ne]
    rintro rfl
    exact hkind rfl
  rw [Token.isJump, hne, hne]
  rfl

/-- A block number is none of the words that block numbers follow. -/
theorem Token.isJump_of_unpadded_eq {token : Token} {id : BlockId}
    (hblock : token.unpadded = id.token) : token.isJump = false := by
  obtain ⟨_, hread⟩ := Token.unpadded_eq_block_iff.mp hblock
  have hne {word : String} (hword : BlockId.ofText? word = none) :
      (token == wordOf word) = false := by
    rw [beq_eq_false_iff_ne]
    rintro rfl
    rw [wordOf, String.ofList_toList, hword] at hread
    cases hread
  rw [Token.isJump, hne rfl, hne rfl]
  rfl

/-! ## Tokens without block numbers -/

/-- No block number can follow the first token. -/
def Plain (token next : Token) : Prop :=
  token.isJump = true → next.kind ≠ .name

theorem unpaddedAfter_eq_iff {before : Token} {tokens targets : List Token}
    (hplain : (before :: targets).IsChain Plain) :
    unpaddedAfter before tokens = targets ↔ tokens = targets := by
  induction targets generalizing before tokens with
  | nil => cases tokens <;> simp [unpaddedAfter]
  | cons target targets ih =>
      rw [List.isChain_cons_cons] at hplain
      cases tokens with
      | nil => simp [unpaddedAfter]
      | cons token tokens =>
          have hfirst : (if before.isJump then token.unpadded else token) = target ↔
              token = target := by
            cases hjump : before.isJump with
            | false => exact Iff.rfl
            | true =>
                have hkind := hplain.1 hjump
                constructor
                · intro heq
                  rw [if_pos rfl] at heq
                  rw [← heq, Token.kind_unpadded] at hkind
                  rw [← heq, Token.unpadded_of_ne_name hkind]
                · rintro rfl
                  rw [if_pos rfl, Token.unpadded_of_ne_name hkind]
          rw [unpaddedAfter, List.cons.injEq, List.cons.injEq, hfirst]
          apply and_congr_right
          rintro rfl
          exact ih hplain.2

theorem unpaddedAfter_eq_cons_iff {before target : Token} {tokens targets : List Token}
    (hjump : before.isJump = false) :
    unpaddedAfter before tokens = target :: targets ↔
      ∃ rest, tokens = target :: rest ∧ unpaddedAfter target rest = targets := by
  cases tokens with
  | nil => simp [unpaddedAfter]
  | cons token tokens =>
      simp only [unpaddedAfter, hjump, Bool.false_eq_true, if_false, List.cons.injEq]
      constructor
      · rintro ⟨rfl, hrest⟩
        exact ⟨tokens, ⟨rfl, rfl⟩, hrest⟩
      · rintro ⟨_, ⟨rfl, rfl⟩, hrest⟩
        exact ⟨rfl, hrest⟩

theorem unpaddedAfter_jump_eq_cons_iff {before target : Token} {tokens targets : List Token}
    (hjump : before.isJump = true) :
    unpaddedAfter before tokens = target :: targets ↔
      ∃ token rest, tokens = token :: rest ∧ token.unpadded = target ∧
        unpaddedAfter token rest = targets := by
  cases tokens with
  | nil => simp [unpaddedAfter]
  | cons token tokens => simp [unpaddedAfter, hjump]

theorem unpaddedAfter_eq_nil {before : Token} {tokens : List Token}
    (heq : unpaddedAfter before tokens = []) : tokens = [] := by
  cases tokens with
  | nil => rfl
  | cons => cases heq

theorem unpadded_eq_iff {tokens targets : List Token} (hplain : targets.IsChain Plain) :
    unpadded tokens = targets ↔ tokens = targets := by
  cases tokens with
  | nil => exact Iff.rfl
  | cons token tokens =>
      cases targets with
      | nil => simp [unpadded]
      | cons target targets =>
          rw [unpadded, List.cons.injEq, List.cons.injEq]
          apply and_congr_right
          rintro rfl
          exact unpaddedAfter_eq_iff hplain

theorem isChain_plain_tokens {operation : Operation} (hbranch : operation.isBranch = false) :
    operation.tokens.IsChain Plain := by
  have hsymbol (symbol : Symbol) (next : Token) : Plain symbol.token next := by
    intro hjump
    rw [Token.isJump_of_ne_name fun hkind => TokenKind.noConfusion hkind] at hjump
    cases hjump
  have hbefore (token : Token) (symbol : Symbol) : Plain token symbol.token := by
    intro _ hkind
    cases hkind
  have hword {word : String} (hword : (wordOf word).isJump = false) (next : Token) :
      Plain (wordOf word) next := by
    intro hjump
    rw [hword] at hjump
    cases hjump
  have hcall := @hword "call" (by decide)
  have hret := @hword "return" (by decide)
  have hparam := @hword "param" (by decide)
  have herror := @hword "errparam" (by decide)
  rcases operation with ⟨op, left, right, onTrue, onFalse⟩ | ⟨_ | _, _ | dest⟩ | (_ | value) |
    ⟨_ | _ | _, value⟩ | ⟨_ | _ | _, dest, source⟩ | ⟨dest, base, index⟩ |
    ⟨base, index, source⟩ | ⟨op, dest, operand⟩ | ⟨op, dest, left, right⟩
  case branch => cases hbranch
  case unary =>
    simp only [Operation.tokens, negatedTokens]
    split <;> simp [hsymbol, hbefore]
  all_goals
    simp [Operation.tokens, CallTarget.tokens, hsymbol, hbefore, hcall, hret, hparam, herror]

/-! ## Spellings of an operation -/

/-- The tokens that an operation is read from. -/
inductive Spells : Operation → List Token → Prop
  | written (operation : Operation) : Spells operation operation.tokens
  /-- Block numbers may start with zeros. -/
  | padded {op : Comparison} {left right : String} {onTrue onFalse : BlockId}
      {first second : Token} (hfirst : first.unpadded = onTrue.token)
      (hsecond : second.unpadded = onFalse.token) :
      Spells (.branch op left right onTrue onFalse)
        [wordOf "if", operandToken left, op.symbol.token, operandToken right, wordOf "goto",
          first, wordOf "else", second]
  /-- A negated integer may stand without parentheses. -/
  | bare {dest operand : String} (hint : isIntConstant operand = true) :
      Spells (.unary .minus dest operand)
        [operandToken dest, Symbol.assign.token, Symbol.minus.token, operandToken operand]

theorem operandToken_ne_symbol {expected : OperandClass} {operand : String}
    (haccepts : expected.accepts operand = true) (symbol : Symbol) :
    operandToken operand ≠ symbol.token :=
  fun heq => operandForm_ne_symbol haccepts symbol (congrArg Token.kind heq)

/-- The operand of a legal negation is one that its sign takes. -/
theorem accepts_of_legal_unary {op : Negation} {dest operand : String}
    (hlegal : (Operation.unary op dest operand).Legal) :
    op.operandClass.accepts operand = true :=
  hlegal ⟨.operand, _, operand⟩ (List.mem_cons_of_mem _ List.mem_cons_self)

/-- A minus sign right after an assignment is that of a negation. -/
theorem eq_negation_of_tokens {operation : Operation} (hlegal : operation.Legal) {first : Token}
    {rest : List Token}
    (htokens : operation.tokens = first :: Symbol.assign.token :: Symbol.minus.token :: rest) :
    ∃ dest operand, operation = .unary .minus dest operand ∧ first = operandToken dest ∧
      rest = negatedTokens operand := by
  rcases operation with ⟨op, left, right, onTrue, onFalse⟩ | ⟨_ | _, _ | dest⟩ | (_ | value) |
    ⟨_ | _ | _, value⟩ | ⟨_ | _ | _, dest, source⟩ | ⟨dest, base, index⟩ |
    ⟨base, index, source⟩ | ⟨_ | _, dest, operand⟩ | ⟨op, dest, left, right⟩ <;>
    simp only [Operation.Legal, Operation.demands, List.forall_mem_cons, Operation.tokens,
      CallTarget.tokens, List.cons.injEq] at hlegal htokens
  case branch => exact absurd htokens.2.1 (operandToken_ne_symbol hlegal.1 _)
  case load.var => exact absurd htokens.2.2.1 (operandToken_ne_symbol hlegal.2.1 _)
  case load.constant => exact absurd htokens.2.2.1 (operandToken_ne_symbol hlegal.2.1 _)
  case loadEntry => exact absurd htokens.2.2.1 (operandToken_ne_symbol hlegal.2.1 _)
  case binary => exact absurd htokens.2.2.1 (operandToken_ne_symbol hlegal.2.1 _)
  case unary.minus => exact ⟨dest, operand, rfl, htokens.1.symm, htokens.2.2.2.symm⟩
  all_goals simp [Symbol.token, wordOf, Negation.symbol] at htokens

theorem parenthesized_eq {tokens targets : List Token} (heq : parenthesized tokens = targets) :
    tokens = targets ∨ ∃ dest value rest, value.kind = .int ∧
      tokens = dest :: Symbol.assign.token :: Symbol.minus.token :: value :: rest ∧
      targets = dest :: Symbol.assign.token :: Symbol.minus.token :: Symbol.openParen.token ::
        value :: Symbol.closeParen.token :: rest := by
  unfold parenthesized at heq
  split at heq
  next dest sign minus value rest =>
    split at heq
    next hpattern =>
      obtain ⟨rfl, rfl, hint⟩ := hpattern
      exact .inr ⟨dest, value, rest, hint, rfl, heq.symm⟩
    next => exact .inl heq
  next => exact .inl heq

/-- Written tokens have no negated integer outside parentheses. -/
theorem parenthesized_tokens {operation : Operation} (hlegal : operation.Legal) :
    parenthesized operation.tokens = operation.tokens := by
  rcases parenthesized_eq rfl with heq | ⟨first, value, rest, hint, htokens, _⟩
  · exact heq.symm
  · obtain ⟨dest, operand, rfl, _, hrest⟩ := eq_negation_of_tokens hlegal htokens
    have haccepts := accepts_of_legal_unary hlegal
    unfold negatedTokens at hrest
    split at hrest
    next =>
      rw [(List.cons.inj hrest).1] at hint
      cases hint
    next hother =>
      rw [(List.cons.inj hrest).1] at hint
      exact absurd ((isIntConstant_iff haccepts).mpr hint) hother

section Branch

variable {op : Comparison} {left right : String} {onTrue onFalse : BlockId}
  (hlegal : (Operation.branch op left right onTrue onFalse).Legal)

include hlegal

theorem operand_isJump_of_branch :
    (operandToken left).isJump = false ∧ (operandToken right).isJump = false := by
  simp only [Operation.Legal, Operation.demands, List.forall_mem_cons] at hlegal
  have hclass : op.operandClass.admits .label = false := by cases op <;> rfl
  exact ⟨Token.isJump_of_ne_name (operandForm_ne_name hlegal.1 hclass),
    Token.isJump_of_ne_name (operandForm_ne_name hlegal.2.1 hclass)⟩

theorem unpadded_eq_branch_iff {tokens : List Token} :
    unpadded tokens = (Operation.branch op left right onTrue onFalse).tokens ↔
      ∃ first second, first.unpadded = onTrue.token ∧ second.unpadded = onFalse.token ∧
        tokens = [wordOf "if", operandToken left, op.symbol.token, operandToken right,
          wordOf "goto", first, wordOf "else", second] := by
  obtain ⟨hleft, hright⟩ := operand_isJump_of_branch hlegal
  have hif : (wordOf "if").isJump = false := by decide
  have hgoto : (wordOf "goto").isJump = true := by decide
  have helse : (wordOf "else").isJump = true := by decide
  have hop : op.symbol.token.isJump = false :=
    Token.isJump_of_ne_name fun hkind => TokenKind.noConfusion hkind
  constructor
  · intro heq
    cases tokens with
    | nil => cases heq
    | cons word tokens =>
        rw [unpadded, Operation.tokens, List.cons.injEq] at heq
        obtain ⟨rfl, hif'⟩ := heq
        obtain ⟨_, rfl, hleft'⟩ := (unpaddedAfter_eq_cons_iff hif).mp hif'
        obtain ⟨_, rfl, hop'⟩ := (unpaddedAfter_eq_cons_iff hleft).mp hleft'
        obtain ⟨_, rfl, hright'⟩ := (unpaddedAfter_eq_cons_iff hop).mp hop'
        obtain ⟨_, rfl, hgoto'⟩ := (unpaddedAfter_eq_cons_iff hright).mp hright'
        obtain ⟨first, _, rfl, hfirst, hfirst'⟩ := (unpaddedAfter_jump_eq_cons_iff hgoto).mp hgoto'
        have hblock := Token.isJump_of_unpadded_eq hfirst
        obtain ⟨_, rfl, helse'⟩ := (unpaddedAfter_eq_cons_iff hblock).mp hfirst'
        obtain ⟨second, _, rfl, hsecond, hsecond'⟩ :=
          (unpaddedAfter_jump_eq_cons_iff helse).mp helse'
        obtain rfl := unpaddedAfter_eq_nil hsecond'
        exact ⟨first, second, hfirst, hsecond, rfl⟩
  · rintro ⟨first, second, hfirst, hsecond, rfl⟩
    have hblock := Token.isJump_of_unpadded_eq hfirst
    simp [unpadded, unpaddedAfter, Operation.tokens, hif, hgoto, helse, hleft, hop, hright, hblock,
      hfirst, hsecond]

end Branch

theorem normalized_eq_tokens_of_spells {operation : Operation} (hlegal : operation.Legal)
    {tokens : List Token} (hspells : Spells operation tokens) :
    normalized tokens = operation.tokens := by
  cases hspells with
  | written =>
      rw [normalized, parenthesized_tokens hlegal]
      cases operation with
      | branch op left right onTrue onFalse =>
          exact (unpadded_eq_branch_iff hlegal).mpr
            ⟨_, _, onTrue.unpadded_token, onFalse.unpadded_token, rfl⟩
      | _ => exact (unpadded_eq_iff (isChain_plain_tokens rfl)).mpr rfl
  | @padded op left right _ _ first second hfirst hsecond =>
      have hleft := operandToken_ne_symbol (hlegal _ List.mem_cons_self) Symbol.assign
      rw [normalized, parenthesized, if_neg fun hpattern => hleft hpattern.1]
      exact (unpadded_eq_branch_iff hlegal).mpr ⟨first, second, hfirst, hsecond, rfl⟩
  | @bare dest operand hint =>
      have haccepts := accepts_of_legal_unary hlegal
      rw [normalized, unpadded_eq_iff (isChain_plain_tokens rfl), parenthesized,
        if_pos ⟨rfl, rfl, (isIntConstant_iff haccepts).mp hint⟩]
      simp [Operation.tokens, negatedTokens, hint, Negation.symbol]

theorem spells_of_normalized_eq {operation : Operation} (hlegal : operation.Legal)
    {tokens : List Token} (heq : normalized tokens = operation.tokens) :
    Spells operation tokens := by
  cases hbranch : operation.isBranch with
  | true =>
      cases operation with
      | branch op left right onTrue onFalse =>
          obtain ⟨first, second, hfirst, hsecond, hmiddle⟩ :=
            (unpadded_eq_branch_iff hlegal).mp heq
          rcases parenthesized_eq hmiddle with rfl | ⟨_, _, _, _, _, htokens⟩
          · exact .padded hfirst hsecond
          · -- the left operand would be an equals sign
            have hleft := operandToken_ne_symbol (hlegal _ List.mem_cons_self) Symbol.assign
            exact absurd (List.cons.inj (List.cons.inj htokens).2).1 hleft
      | _ => cases hbranch
  | false =>
      have hmiddle := (unpadded_eq_iff (isChain_plain_tokens hbranch)).mp heq
      rcases parenthesized_eq hmiddle with rfl | ⟨first, value, rest, _, rfl, htokens⟩
      · exact .written operation
      · obtain ⟨dest, operand, rfl, rfl, hrest⟩ := eq_negation_of_tokens hlegal htokens
        have haccepts := accepts_of_legal_unary hlegal
        unfold negatedTokens at hrest
        split at hrest
        next hint =>
          simp only [List.cons.injEq, true_and] at hrest
          obtain ⟨rfl, rfl⟩ := hrest
          exact .bare hint
        next =>
          have hopening := (List.cons.inj hrest).1.symm
          exact absurd hopening (operandToken_ne_symbol haccepts _)

/-! ## Every spelling is read -/

theorem Lexeme.block_of_unpadded {lexeme : Lexeme} {id : BlockId}
    (hblock : lexeme.token.unpadded = id.token) : lexeme.kind = .name ∧ lexeme.block = .ok id := by
  obtain ⟨hkind, hread⟩ := Token.unpadded_eq_block_iff.mp hblock
  have hread : BlockId.ofText? lexeme.text = some id := by
    rwa [Lexeme.token, String.ofList_toList] at hread
  refine ⟨hkind, ?_⟩
  rw [Lexeme.block, hread]

theorem readOperation_of_spells {operation : Operation} (hlegal : operation.Legal)
    {lexemes : List Lexeme} (hspells : Spells operation (lexemes.map Lexeme.token)) :
    readOperation lexemes = .ok operation := by
  generalize htokens : lexemes.map Lexeme.token = tokens at hspells
  cases hspells with
  | written => exact readOperation_of_tokens hlegal htokens
  | padded hfirst hsecond =>
      simp only [List.map_eq_cons_iff, List.map_eq_nil_iff, Lexeme.token_eq_wordOf,
        Lexeme.token_eq_operandToken, Lexeme.token_eq_symbol] at htokens
      obtain ⟨word, _, rfl, hword, l, _, rfl, hl, sign, _, rfl, hsign, r, _, rfl, hr, goWord, _,
        rfl, hgo, t, _, rfl, rfl, elseWord, _, rfl, helse, f, _, rfl, rfl, rfl⟩ := htokens
      have ht := Lexeme.block_of_unpadded hfirst
      have hf := Lexeme.block_of_unpadded hsecond
      simp [readOperation_eq, readBranch?, Lexeme.isWord, Lexeme.comparison, hword, hl, hsign, hr,
        hgo, ht, helse, hf, Comparison.ofSymbol?_symbol]
      rfl
  | bare hint =>
      simp only [List.map_eq_cons_iff, List.map_eq_nil_iff, Lexeme.token_eq_operandToken,
        Lexeme.token_eq_symbol] at htokens
      obtain ⟨d, _, rfl, hd, sign, _, rfl, hsign, mark, _, rfl, hmark, v, _, rfl, hv, rfl⟩ :=
        htokens
      have hdest := operandForm_ne_name (hlegal _ List.mem_cons_self) rfl
      rw [readOperation_of_ne_name (hd.1 ▸ hdest)]
      simp [readKeptCall?, readTarget?, readAddress?, readNegation?, Lexeme.isWord,
        Lexeme.isSymbol, hsign, hmark, hd, hv]

end ClassLang.Code
