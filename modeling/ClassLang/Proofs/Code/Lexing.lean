/-
# How operands are written

The scanner finds a token by looking as far as it can. This module gives the forms
of tokens in their own right, and shows that the two views agree where it matters
for operands: a text that is one token has one of the forms, and a text of one of
the forms is found as that token again when it stands before a character that
cannot make it longer.
-/

import Mathlib.Data.List.TakeWhile
import ClassLang.Code.Scan
import ClassLang.Code.Operand

namespace ClassLang.Code

/-! ## Forms -/

/-- A name: a letter or underscore, then letters, digits and underscores. -/
def isName : List Char → Bool
  | [] => false
  | c :: rest => isNameStart c && rest.all isNamePart

/-- One or more digits. -/
def isNumeral (chars : List Char) : Bool :=
  !chars.isEmpty && chars.all Char.isDigit

/-- The marks that make a name a variable. -/
inductive IsMark : List Char → Prop
  | local : IsMark ['$', 'l']
  | param : IsMark ['$', 'p']
  | field {name : List Char} (hname : isName name = true) : IsMark ('$' :: 'f' :: '_' :: name)

/-- Names with a dot before each. -/
inductive IsDots : List Char → Prop
  | nil : IsDots []
  | cons {name dots : List Char} (hname : isName name = true) (hdots : IsDots dots) :
      IsDots ('.' :: (name ++ dots))

/-- What is left of a string after its opening quote: characters other than quotes
and backslashes, backslashes with the character after them, and the closing quote. -/
inductive IsStringTail : List Char → Prop
  | close : IsStringTail ['"']
  | escape {c : Char} {tail : List Char} (hc : c ≠ '\n') (htail : IsStringTail tail) :
      IsStringTail ('\\' :: c :: tail)
  | plain {c : Char} {tail : List Char} (hquote : c ≠ '"') (hbackslash : c ≠ '\\')
      (htail : IsStringTail tail) : IsStringTail (c :: tail)

/-- The forms of the tokens that can be operands. -/
inductive Written : TokenKind → List Char → Prop
  | word {name : List Char} (hname : isName name = true) : Written (wordKind name) name
  | var {name mark : List Char} (hname : isName name = true) (hmark : IsMark mark) :
      Written .var (name ++ mark)
  | dotted {name dots : List Char} (hname : isName name = true) (hdots : IsDots dots)
      (hne : dots ≠ []) : Written .dotted (name ++ dots)
  | int {digits : List Char} (hdigits : isNumeral digits = true) : Written .int digits
  | negative {digits : List Char} (hdigits : isNumeral digits = true) :
      Written .int ('-' :: digits)
  | str {tail : List Char} (htail : IsStringTail tail) : Written .str ('"' :: tail)
  | temp {c : Char} {digits : List Char} (hc : c = 't' ∨ c = 'o')
      (hdigits : isNumeral digits = true) : Written .temp ('$' :: c :: digits)

theorem Written.kind_ne {kind : TokenKind} {chars : List Char} (hform : Written kind chars) :
    kind ≠ .comment ∧ ∀ symbol, kind ≠ .symbol symbol := by
  cases hform with
  | word =>
      unfold wordKind
      repeat' split
      all_goals simp
  | _ => simp

/-- A text that cannot make a token before it longer. -/
def Delimits (rest : List Char) : Prop :=
  ∀ c ∈ rest.head?, isNamePart c = false ∧ c ≠ '.' ∧ c ≠ '$'

theorem delimits_nil : Delimits [] := by
  simp [Delimits]

/-! ## What the scanner finds has a form -/

theorem isDigit_of_mem_digitsAt {text : List Char} {c : Char}
    (hc : c ∈ Decimal.digitsAt text) : c.isDigit = true :=
  List.mem_takeWhile_imp hc

theorem isNumeral_digitsAt {text : List Char} (hne : Decimal.digitsAt text ≠ []) :
    isNumeral (Decimal.digitsAt text) = true := by
  simp only [isNumeral, Bool.and_eq_true, Bool.not_eq_true', List.isEmpty_eq_false_iff,
    List.all_eq_true]
  exact ⟨hne, fun c hc => isDigit_of_mem_digitsAt hc⟩

theorem isName_nameAt {text : List Char} (hne : nameAt text ≠ []) :
    isName (nameAt text) = true := by
  unfold nameAt at hne ⊢
  split at hne
  · exact absurd rfl hne
  next c rest =>
    split at hne
    next hstart =>
      simp only [hstart, if_true, isName, Bool.true_and, List.all_eq_true]
      exact fun d hd => List.mem_takeWhile_imp hd
    next => exact absurd rfl hne

theorem isDots_dotsAt (text : List Char) : IsDots (dotsAt text) := by
  fun_induction dotsAt text with
  | case1 => exact .nil
  | case2 => exact .nil
  | case3 rest hname ih => exact .cons (isName_nameAt hname) ih
  | case4 => exact .nil

theorem isMark_markAt {text : List Char} (hne : markAt text ≠ []) : IsMark (markAt text) := by
  unfold markAt at hne ⊢
  split at hne
  · exact .local
  · exact .param
  · split at hne
    · exact absurd rfl hne
    next hname => exact .field (isName_nameAt hname)
  · exact absurd rfl hne

theorem isStringTail_of_stringTail {text tail : List Char} (htail : stringTail text = some tail) :
    IsStringTail tail := by
  fun_induction stringTail text generalizing tail with
  | case1 => cases htail
  | case2 rest =>
      obtain rfl := Option.some.inj htail
      exact .close
  | case3 => cases htail
  | case4 => cases htail
  | case5 d rest hd hquote ih =>
      obtain ⟨inner, hinner, rfl⟩ := Option.map_eq_some_iff.mp htail
      exact .escape hd (ih hinner)
  | case6 c rest hquote hbackslash ih =>
      obtain ⟨inner, hinner, rfl⟩ := Option.map_eq_some_iff.mp htail
      exact .plain hquote hbackslash (ih hinner)

theorem nameAt_append_drop (text : List Char) :
    nameAt text ++ text.drop (nameAt text).length = text := by
  cases text with
  | nil => rfl
  | cons c rest =>
      by_cases hstart : isNameStart c = true
      · have hdrop : rest.drop (rest.takeWhile isNamePart).length = rest.dropWhile isNamePart :=
          calc rest.drop (rest.takeWhile isNamePart).length
            _ = (rest.takeWhile isNamePart ++ rest.dropWhile isNamePart).drop
                (rest.takeWhile isNamePart).length := by rw [List.takeWhile_append_dropWhile]
            _ = rest.dropWhile isNamePart := List.drop_left
        simp [nameAt, hstart, hdrop]
      · simp [nameAt, hstart]

theorem isPrefix_markAt (text : List Char) : markAt text <+: text := by
  unfold markAt
  split
  next rest => exact ⟨rest, rfl⟩
  next rest => exact ⟨rest, rfl⟩
  next rest =>
    split
    next => exact List.nil_prefix
    next => exact ⟨_, congrArg (['$', 'f', '_'] ++ ·) (nameAt_append_drop rest)⟩
  next => exact List.nil_prefix

theorem isPrefix_dotsAt (text : List Char) : dotsAt text <+: text := by
  fun_induction dotsAt text with
  | case1 => exact List.nil_prefix
  | case2 => exact List.nil_prefix
  | case3 rest hname ih =>
      obtain ⟨after, hafter⟩ := ih
      refine ⟨after, ?_⟩
      rw [List.cons_append, List.append_assoc, hafter, nameAt_append_drop]
  | case4 => exact List.nil_prefix

theorem isPrefix_stringTail {text tail : List Char} (htail : stringTail text = some tail) :
    tail <+: text := by
  fun_induction stringTail text generalizing tail with
  | case1 => cases htail
  | case2 rest =>
      obtain rfl := Option.some.inj htail
      exact ⟨rest, rfl⟩
  | case3 => cases htail
  | case4 => cases htail
  | case5 d rest hd hquote ih =>
      obtain ⟨inner, hinner, rfl⟩ := Option.map_eq_some_iff.mp htail
      obtain ⟨after, hafter⟩ := ih hinner
      exact ⟨after, congrArg (['\\', d] ++ ·) hafter⟩
  | case6 c rest hquote hbackslash ih =>
      obtain ⟨inner, hinner, rfl⟩ := Option.map_eq_some_iff.mp htail
      obtain ⟨after, hafter⟩ := ih hinner
      exact ⟨after, congrArg (c :: ·) hafter⟩

/-- What the scanner can find before the rest of a text. -/
inductive Found : Token → List Char → Prop
  | written {kind : TokenKind} {chars rest : List Char} (hform : Written kind chars) :
      Found ⟨kind, chars⟩ rest
  /-- A word, even a keyword, before a dot or a dollar sign that leads to nothing longer. -/
  | stub {name rest : List Char} (hname : isName name = true)
      (hrest : ∃ c ∈ rest.head?, c = '.' ∨ c = '$') : Found ⟨.name, name⟩ rest
  | symbol (symbol : Symbol) (rest : List Char) : Found ⟨.symbol symbol, symbol.chars⟩ rest
  | comment {body rest : List Char} (hbody : '\n' ∉ body) :
      Found ⟨.comment, '/' :: '/' :: body⟩ rest

theorem found_wordToken {name : List Char} (hname : isName name = true) (rest : List Char) :
    ∃ after, name ++ rest = (wordToken name rest).chars ++ after ∧
      Found (wordToken name rest) after := by
  unfold wordToken
  split
  next =>
    split
    next c rest _ _ =>
      split
      next hc => exact ⟨c :: rest, rfl, .stub hname ⟨c, rfl, hc⟩⟩
      next => exact ⟨c :: rest, rfl, .written (.word hname)⟩
    next => exact ⟨[], rfl, .written (.word hname)⟩
  next hdots =>
    obtain ⟨after, hafter⟩ := isPrefix_dotsAt rest
    refine ⟨after, ?_, .written (.dotted hname (isDots_dotsAt rest) hdots)⟩
    rw [List.append_assoc, hafter]
  next hmark _ =>
    obtain ⟨after, hafter⟩ := isPrefix_markAt rest
    refine ⟨after, ?_, .written (.var hname (isMark_markAt hmark))⟩
    rw [List.append_assoc, hafter]

/-- A token is a piece of the text, and of one of the forms. -/
theorem found_of_at? {text : List Char} {token : Token} (htoken : Token.at? text = some token) :
    ∃ rest, text = token.chars ++ rest ∧ Found token rest := by
  have htake {p : Char → Bool} (text : List Char) :
      text = text.takeWhile p ++ text.dropWhile p := List.takeWhile_append_dropWhile.symm
  cases text with
  | nil => cases htoken
  | cons c rest =>
      simp only [Token.at?] at htoken
      split at htoken
      next hstart =>
        obtain rfl := Option.some.inj htoken
        have hfound := found_wordToken (isName_nameAt (@nameAt_ne_nil c rest hstart))
          ((c :: rest).drop (nameAt (c :: rest)).length)
        rwa [nameAt_append_drop] at hfound
      split at htoken
      next hdigit =>
        obtain rfl := Option.some.inj htoken
        refine ⟨_, congrArg (c :: ·) (htake rest), .written (.int ?_)⟩
        simpa [isNumeral, hdigit] using fun d hd => isDigit_of_mem_digitsAt hd
      split at htoken
      next hminus =>
        obtain rfl := Option.some.inj htoken
        refine ⟨_, congrArg (c :: ·) (htake rest), ?_⟩
        rw [hminus.1]
        exact .written (.negative (isNumeral_digitsAt hminus.2))
      split at htoken
      next hquote =>
        obtain ⟨tail, htail, rfl⟩ := Option.map_eq_some_iff.mp htoken
        obtain ⟨after, hafter⟩ := isPrefix_stringTail htail
        refine ⟨after, congrArg (c :: ·) hafter.symm, ?_⟩
        rw [hquote]
        exact .written (.str (isStringTail_of_stringTail htail))
      split at htoken
      next hdollar =>
        split at htoken
        next d rest _ =>
          split at htoken
          next htemp =>
            obtain rfl := Option.some.inj htoken
            refine ⟨_, congrArg ([c, d] ++ ·) (htake rest), ?_⟩
            rw [hdollar]
            exact .written (.temp htemp.1 (isNumeral_digitsAt htemp.2))
          next => cases htoken
        next => cases htoken
      split at htoken
      next hslash =>
        obtain ⟨rfl, hsecond⟩ := hslash
        obtain rfl := Option.some.inj htoken
        obtain ⟨rest, rfl⟩ := List.head?_eq_some_iff.mp hsecond
        refine ⟨_, congrArg (['/', '/'] ++ ·) (htake rest), ?_⟩
        rw [List.takeWhile_cons_of_pos (by decide)]
        refine .comment fun hmem => ?_
        simpa using List.mem_takeWhile_imp hmem
      next =>
        obtain ⟨symbol, hsymbol, rfl⟩ := Option.map_eq_some_iff.mp htoken
        have hchars := @List.find?_some _ (fun symbol : Symbol =>
          symbol.chars.isPrefixOf (c :: rest)) _ _ hsymbol
        obtain ⟨after, hafter⟩ := List.isPrefixOf_iff_prefix.mp hchars
        exact ⟨after, hafter.symm, .symbol symbol after⟩

/-- A text that is one token, but neither a symbol nor a comment, has one of the
forms. -/
theorem written_of_at? {text : List Char} {kind : TokenKind}
    (htoken : Token.at? text = some ⟨kind, text⟩) (hsymbol : ∀ symbol, kind ≠ .symbol symbol)
    (hcomment : kind ≠ .comment) : Written kind text := by
  obtain ⟨rest, hrest, hfound⟩ := found_of_at? htoken
  obtain rfl : rest = [] := by simpa using hrest
  cases hfound with
  | written hform => exact hform
  | stub hname hnext =>
      obtain ⟨c, hc, _⟩ := hnext
      cases hc
  | symbol symbol => exact absurd rfl (hsymbol symbol)
  | comment => exact absurd rfl hcomment

/-! ## What has a form is found -/

theorem takeWhile_run_append {α : Type} {p : α → Bool} {run rest : List α}
    (hrun : ∀ c ∈ run, p c = true) (hrest : ∀ c ∈ rest.head?, p c = false) :
    (run ++ rest).takeWhile p = run := by
  rw [List.takeWhile_append_of_pos hrun]
  cases rest with
  | nil => simp
  | cons c rest => simp [hrest c rfl]

theorem isNamePart_of_isDigit {c : Char} (hdigit : c.isDigit = true) : isNamePart c = true := by
  simp [isNamePart, Char.isAlphanum, hdigit]

theorem isNameStart_eq_false_of_isDigit {c : Char} (hdigit : c.isDigit = true) :
    isNameStart c = false := by
  have hne : c ≠ '_' := by
    rintro rfl
    exact absurd hdigit (by decide)
  -- Digits come before all letters.
  have hnine : c.val ≤ '9'.val := of_decide_eq_true (Bool.and_eq_true_iff.mp hdigit).2
  have hupper : c.isUpper = false :=
    decide_eq_false fun h => absurd (UInt32.le_trans h.1 hnine) (by decide)
  have hlower : c.isLower = false :=
    Bool.and_eq_false_iff.mpr (.inl (decide_eq_false fun h =>
      absurd (UInt32.le_trans h hnine) (by decide)))
  show (c.isUpper || c.isLower || c == '_') = false
  rw [hupper, hlower, beq_eq_false_iff_ne.mpr hne]
  rfl

theorem Delimits.digit_eq_false {rest : List Char} (hrest : Delimits rest) :
    ∀ c ∈ rest.head?, c.isDigit = false := by
  intro c hc
  have hpart := (hrest c hc).1
  cases hdigit : c.isDigit
  · rfl
  · rw [isNamePart_of_isDigit hdigit] at hpart
    cases hpart

theorem ne_nil_of_isNumeral {digits : List Char} (hdigits : isNumeral digits = true) :
    digits ≠ [] := by
  rintro rfl
  cases hdigits

theorem digitsAt_append {digits rest : List Char} (hdigits : isNumeral digits = true)
    (hrest : Delimits rest) : Decimal.digitsAt (digits ++ rest) = digits := by
  simp only [isNumeral, Bool.and_eq_true, List.all_eq_true] at hdigits
  exact takeWhile_run_append hdigits.2 hrest.digit_eq_false

theorem nameAt_append {name rest : List Char} (hname : isName name = true)
    (hrest : ∀ c ∈ rest.head?, isNamePart c = false) : nameAt (name ++ rest) = name := by
  cases name with
  | nil => cases hname
  | cons c name =>
      simp only [isName, Bool.and_eq_true, List.all_eq_true] at hname
      rw [List.cons_append, nameAt, if_pos hname.1, takeWhile_run_append hname.2 hrest]

theorem markAt_append {mark rest : List Char} (hmark : IsMark mark) (hrest : Delimits rest) :
    markAt (mark ++ rest) = mark := by
  cases hmark with
  | «local» => rfl
  | param => rfl
  | field hname =>
      have hfound := nameAt_append hname fun c hc => (hrest c hc).1
      simp only [List.cons_append, markAt, hfound]
      split
      next => cases hname
      next => rfl

theorem IsDots.head_ne {dots rest : List Char} (hdots : IsDots dots) (hrest : Delimits rest) :
    ∀ c ∈ (dots ++ rest).head?, isNamePart c = false ∧ c ≠ '$' := by
  cases hdots with
  | nil => exact fun c hc => ⟨(hrest c hc).1, (hrest c hc).2.2⟩
  | cons hname hdots =>
      intro c hc
      obtain rfl : '.' = c := by simpa using hc
      decide

theorem dotsAt_append {dots rest : List Char} (hdots : IsDots dots) (hrest : Delimits rest) :
    dotsAt (dots ++ rest) = dots := by
  induction hdots with
  | nil =>
      cases rest with
      | nil => simp [dotsAt]
      | cons c rest =>
          rw [List.nil_append, dotsAt, if_neg (hrest c rfl).2.1]
  | @cons name dots hname hdots ih =>
      have hfound := nameAt_append hname fun c hc => (hdots.head_ne hrest c hc).1
      rw [List.cons_append, List.append_assoc, dotsAt, if_pos rfl]
      simp only [hfound]
      split
      next => cases hname
      next => rw [List.drop_left, ih]

theorem stringTail_append {tail : List Char} (htail : IsStringTail tail) (rest : List Char) :
    stringTail (tail ++ rest) = some tail := by
  induction htail with
  | close => simp only [List.cons_append, stringTail.eq_def (_ :: _), if_true]
  | escape hc htail ih => simp [stringTail, hc, ih]
  | plain hquote hbackslash htail ih =>
      simp only [List.cons_append, stringTail.eq_def (_ :: _), hquote, hbackslash, if_false, ih,
        Option.map_some]

theorem markAt_eq_nil {rest : List Char} (hrest : ∀ c ∈ rest.head?, c ≠ '$') :
    markAt rest = [] := by
  unfold markAt
  split <;> simp_all

/-- The scanner finds a name, and what follows decides what it is part of. -/
theorem at?_name_append {name rest : List Char} (hname : isName name = true)
    (hrest : ∀ c ∈ rest.head?, isNamePart c = false) :
    Token.at? (name ++ rest) = some (wordToken name rest) := by
  have hfound := nameAt_append hname hrest
  cases name with
  | nil => cases hname
  | cons c name =>
      simp only [isName, Bool.and_eq_true] at hname
      rw [List.cons_append] at hfound ⊢
      simp only [Token.at?, hname.1, if_true, hfound]
      rw [← List.cons_append, List.drop_left]

theorem wordToken_of_delimits {name rest : List Char} (hrest : Delimits rest) :
    wordToken name rest = ⟨wordKind name, name⟩ := by
  have hmark : markAt rest = [] := markAt_eq_nil fun c hc => (hrest c hc).2.2
  have hdots : dotsAt rest = [] := dotsAt_append .nil hrest
  simp only [wordToken, hmark, hdots]
  split
  next c rest => rw [if_neg (not_or.mpr (hrest c rfl).2)]
  next => rfl

theorem wordToken_mark_append {name mark rest : List Char} (hmark : IsMark mark)
    (hrest : Delimits rest) : wordToken name (mark ++ rest) = ⟨.var, name ++ mark⟩ := by
  simp only [wordToken, markAt_append hmark hrest]
  cases hmark <;> rfl

theorem wordToken_dots_append {name dots rest : List Char} (hdots : IsDots dots)
    (hne : dots ≠ []) (hrest : Delimits rest) :
    wordToken name (dots ++ rest) = ⟨.dotted, name ++ dots⟩ := by
  have hmark : markAt (dots ++ rest) = [] :=
    markAt_eq_nil fun c hc => (hdots.head_ne hrest c hc).2
  simp only [wordToken, hmark, dotsAt_append hdots hrest]

/-- A numeral starts with a digit, and no name does. -/
theorem at?_numeral_append {digits rest : List Char} (hdigits : isNumeral digits = true)
    (hrest : Delimits rest) : Token.at? (digits ++ rest) = some ⟨.int, digits⟩ := by
  have hfound := digitsAt_append hdigits hrest
  cases digits with
  | nil => cases hdigits
  | cons c digits =>
      have hdigit : c.isDigit = true := by
        simp only [isNumeral, List.all_cons, Bool.and_eq_true] at hdigits
        exact hdigits.2.1
      rw [List.cons_append, Decimal.digitsAt, List.takeWhile_cons_of_pos hdigit] at hfound
      simp only [List.cons_append, Token.at?, isNameStart_eq_false_of_isDigit hdigit, hdigit,
        if_true, Bool.false_eq_true, if_false, Decimal.digitsAt, hfound]

/-- A text of one of the forms is found as the token of that form before any
character that cannot make it longer. -/
theorem at?_of_written {kind : TokenKind} {chars rest : List Char} (hform : Written kind chars)
    (hrest : Delimits rest) : Token.at? (chars ++ rest) = some ⟨kind, chars⟩ := by
  cases hform with
  | word hname =>
      rw [at?_name_append hname fun c hc => (hrest c hc).1, wordToken_of_delimits hrest]
  | @var name mark hname hmark =>
      have hhead : ∀ c ∈ (mark ++ rest).head?, isNamePart c = false := by
        cases hmark <;> simp [isNamePart]
      rw [List.append_assoc, at?_name_append hname hhead, wordToken_mark_append hmark hrest]
  | dotted hname hdots hne =>
      rw [List.append_assoc,
        at?_name_append hname fun c hc => (hdots.head_ne hrest c hc).1,
        wordToken_dots_append hdots hne hrest]
  | int hdigits => exact at?_numeral_append hdigits hrest
  | negative hdigits =>
      simp [Token.at?, digitsAt_append hdigits hrest, ne_nil_of_isNumeral hdigits, isNameStart]
  | str htail => simp [Token.at?, stringTail_append htail rest, isNameStart]
  | temp hc hdigits =>
      simp [Token.at?, hc, digitsAt_append hdigits hrest, ne_nil_of_isNumeral hdigits, isNameStart]

/-! ## Operands -/

/-- An operand is one token from its first character to its last. -/
theorem OperandKind.exists_written {operand : String} {kind : OperandKind}
    (hkind : OperandKind.of? operand = some kind) :
    ∃ form, Written form operand.toList ∧
      OperandKind.ofToken? ⟨form, operand.toList⟩ = some kind := by
  simp only [OperandKind.of?] at hkind
  split at hkind
  next token htoken =>
    split at hkind
    next hchars =>
      obtain ⟨form, chars⟩ := token
      obtain rfl : chars = operand.toList := hchars
      refine ⟨form, written_of_at? htoken ?_ ?_, hkind⟩
      · rintro symbol rfl
        cases hkind
      · rintro rfl
        cases hkind
    next => cases hkind
  next => cases hkind

/-- What a variable, a label or a word starts with cannot extend a sign before it. -/
theorem Written.head_of_ne {form : TokenKind} {chars : List Char} (hform : Written form chars)
    (hint : form ≠ .int) (hstr : form ≠ .str) :
    ∃ c rest, chars = c :: rest ∧ (isNameStart c = true ∨ c = '$') := by
  have hstart : ∀ {name rest : List Char}, isName name = true →
      ∃ c tail, name ++ rest = c :: tail ∧ (isNameStart c = true ∨ c = '$') := by
    intro name rest hname
    cases name with
    | nil => cases hname
    | cons c name =>
        simp only [isName, Bool.and_eq_true] at hname
        exact ⟨c, name ++ rest, rfl, .inl hname.1⟩
  cases hform with
  | word hname => simpa using @hstart _ [] hname
  | var hname => exact hstart hname
  | dotted hname => exact hstart hname
  | int => exact absurd rfl hint
  | negative => exact absurd rfl hint
  | str => exact absurd rfl hstr
  | temp => exact ⟨_, _, rfl, .inr rfl⟩

end ClassLang.Code
