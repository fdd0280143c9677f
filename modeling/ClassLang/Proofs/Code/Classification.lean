/-
# The grammar of operands

The kind of an operand is read off the longest token at its head, which has to be the
whole text. What texts these are is said here by a grammar over single characters, without
tokens and without a search. Each kind belongs to exactly the texts that the grammar gives
it, and every other text is no operand.
-/

import ClassLang.Proofs.Code.Spelling

namespace ClassLang.Code

/-! ## The grammar -/

/-- A letter of the English alphabet. -/
def IsLetter (c : Char) : Prop :=
  ('A' ≤ c ∧ c ≤ 'Z') ∨ ('a' ≤ c ∧ c ≤ 'z')

/-- A decimal digit. -/
def IsDigit (c : Char) : Prop :=
  '0' ≤ c ∧ c ≤ '9'

/-- A letter or underscore, then any number of letters, digits and underscores. -/
inductive IsIdent : List Char → Prop
  | cons {first : Char} {rest : List Char} (hfirst : IsLetter first ∨ first = '_')
      (hrest : ∀ c ∈ rest, IsLetter c ∨ IsDigit c ∨ c = '_') : IsIdent (first :: rest)

/-- One or more digits. -/
structure IsNumber (digits : List Char) : Prop where
  ne_nil : digits ≠ []
  digit : ∀ c ∈ digits, IsDigit c

/-- What a string is made of: a character that needs no backslash, or a backslash with a
character on the same line. -/
inductive IsPiece : List Char → Prop
  | plain {c : Char} (hquote : c ≠ '"') (hbackslash : c ≠ '\\') : IsPiece [c]
  | escaped {c : Char} (hline : c ≠ '\n') : IsPiece ['\\', c]

/-- The words that are no labels. -/
def keywords : List (List Char) :=
  [['t', 'h', 'i', 's'], ['t', 'r', 'u', 'e'], ['f', 'a', 'l', 's', 'e'], ['n', 'u', 'l', 'l']]

/-- The texts of each kind of operand. -/
inductive Denotes : OperandKind → List Char → Prop
  | this : Denotes .var ['t', 'h', 'i', 's']
  | localVar {name : List Char} (hname : IsIdent name) : Denotes .var (name ++ ['$', 'l'])
  | param {name : List Char} (hname : IsIdent name) : Denotes .var (name ++ ['$', 'p'])
  | field {name owner : List Char} (hname : IsIdent name) (howner : IsIdent owner) :
      Denotes .var (name ++ (['$', 'f', '_'] ++ owner))
  | temp {c : Char} {digits : List Char} (hc : c = 't' ∨ c = 'o') (hdigits : IsNumber digits) :
      Denotes .var ('$' :: c :: digits)
  | int {digits : List Char} {value : Int} (hdigits : IsNumber digits)
      (hvalue : value = Nat.ofDigitChars 10 digits 0) (hfits : value ≤ 2147483647) :
      Denotes (.int value) digits
  | negative {digits : List Char} {value : Int} (hdigits : IsNumber digits)
      (hvalue : value = -Nat.ofDigitChars 10 digits 0) (hfits : -2147483648 ≤ value) :
      Denotes (.int value) ('-' :: digits)
  | trueWord : Denotes .bool ['t', 'r', 'u', 'e']
  | falseWord : Denotes .bool ['f', 'a', 'l', 's', 'e']
  | null : Denotes .null ['n', 'u', 'l', 'l']
  | str {pieces : List (List Char)} (hpieces : ∀ piece ∈ pieces, IsPiece piece) :
      Denotes .str ('"' :: (pieces.flatten ++ ['"']))
  | label {names : List (List Char)} (hne : names ≠ []) (hnames : ∀ name ∈ names, IsIdent name)
      (hword : ['.'].intercalate names ∉ keywords) :
      Denotes .label (['.'].intercalate names)

/-! ## Characters, names and numbers -/

theorem isAlpha_iff {c : Char} : c.isAlpha = true ↔ IsLetter c := by
  show (c.isUpper || c.isLower) = true ↔ _
  rw [Bool.or_eq_true]
  refine or_congr ?_ ?_
  · exact decide_eq_true_iff
  · exact Bool.and_eq_true_iff.trans (and_congr decide_eq_true_iff decide_eq_true_iff)

theorem isDigit_iff {c : Char} : c.isDigit = true ↔ IsDigit c :=
  Bool.and_eq_true_iff.trans (and_congr decide_eq_true_iff decide_eq_true_iff)

theorem isNameStart_iff {c : Char} : isNameStart c = true ↔ IsLetter c ∨ c = '_' := by
  rw [isNameStart, Bool.or_eq_true, isAlpha_iff, beq_iff_eq]

theorem isNamePart_iff {c : Char} :
    isNamePart c = true ↔ IsLetter c ∨ IsDigit c ∨ c = '_' := by
  show (c.isAlpha || c.isDigit || c == '_') = true ↔ _
  rw [Bool.or_eq_true, Bool.or_eq_true, isAlpha_iff, isDigit_iff, beq_iff_eq, or_assoc]

theorem isName_iff {name : List Char} : isName name = true ↔ IsIdent name := by
  cases name with
  | nil =>
      apply iff_of_false Bool.false_ne_true
      intro hident
      cases hident
  | cons first rest =>
      rw [isName, Bool.and_eq_true, isNameStart_iff, List.all_eq_true]
      simp only [isNamePart_iff]
      refine ⟨fun hname => .cons hname.1 hname.2, fun hident => ?_⟩
      cases hident with
      | cons hfirst hrest => exact ⟨hfirst, hrest⟩

theorem isNumeral_iff_isNumber {digits : List Char} :
    isNumeral digits = true ↔ IsNumber digits := by
  rw [isNumeral_iff]
  simp only [isDigit_iff]
  exact ⟨fun hdigits => ⟨hdigits.1, hdigits.2⟩, fun hdigits => ⟨hdigits.1, hdigits.2⟩⟩

/-! ## Strings and labels -/

theorem isStringTail_iff {tail : List Char} :
    IsStringTail tail ↔
      ∃ pieces : List (List Char), (∀ piece ∈ pieces, IsPiece piece) ∧
        tail = pieces.flatten ++ ['"'] := by
  constructor
  · intro htail
    induction htail with
    | close => exact ⟨[], List.forall_mem_nil _, rfl⟩
    | escape hc _ ih =>
        obtain ⟨pieces, hpieces, rfl⟩ := ih
        exact ⟨_ :: pieces, List.forall_mem_cons.mpr ⟨.escaped hc, hpieces⟩, rfl⟩
    | plain hquote hbackslash _ ih =>
        obtain ⟨pieces, hpieces, rfl⟩ := ih
        exact ⟨_ :: pieces, List.forall_mem_cons.mpr ⟨.plain hquote hbackslash, hpieces⟩, rfl⟩
  · rintro ⟨pieces, hpieces, rfl⟩
    induction pieces with
    | nil => exact .close
    | cons piece pieces ih =>
        rw [List.forall_mem_cons] at hpieces
        rw [List.flatten_cons, List.append_assoc]
        cases hpieces.1 with
        | plain hquote hbackslash => exact .plain hquote hbackslash (ih hpieces.2)
        | escaped hline => exact .escape hline (ih hpieces.2)

/-- A name and names with dots before them are names with dots between them. -/
theorem exists_intercalate_iff {chars : List Char} :
    (∃ name dots, isName name = true ∧ IsDots dots ∧ chars = name ++ dots) ↔
      ∃ names, names ≠ [] ∧ (∀ name ∈ names, IsIdent name) ∧ chars = ['.'].intercalate names := by
  constructor
  · rintro ⟨name, dots, hname, hdots, rfl⟩
    induction hdots generalizing name with
    | nil => exact ⟨[name], by simp, by simpa using isName_iff.mp hname, by simp⟩
    | @cons next dots hnext _ ih =>
        obtain ⟨names, hne, hnames, heq⟩ := ih next hnext
        refine ⟨name :: names, by simp, List.forall_mem_cons.mpr ⟨isName_iff.mp hname, hnames⟩, ?_⟩
        obtain ⟨second, names, rfl⟩ := List.exists_cons_of_ne_nil hne
        rw [List.intercalate_cons_cons, ← heq]
        simp
  · rintro ⟨names, hne, hnames, rfl⟩
    induction names with
    | nil => exact absurd rfl hne
    | cons name names ih =>
        rw [List.forall_mem_cons] at hnames
        cases names with
        | nil => exact ⟨name, [], isName_iff.mpr hnames.1, .nil, by simp⟩
        | cons second names =>
            obtain ⟨next, dots, hnext, hdots, heq⟩ := ih (by simp) hnames.2
            refine ⟨name, '.' :: (next ++ dots), isName_iff.mpr hnames.1, .cons hnext hdots, ?_⟩
            rw [List.intercalate_cons_cons, heq]
            simp

/-! ## Values -/

theorem intValue?_of_isNumeral {digits : List Char} (hdigits : isNumeral digits = true) :
    intValue? digits = some (Nat.ofDigitChars 10 digits 0 : Int) := by
  have hvalue := Decimal.value?_eq_some_iff.mpr ⟨hdigits, rfl⟩
  cases digits with
  | nil => cases hdigits
  | cons c digits =>
      have hminus : c ≠ '-' := by
        rintro rfl
        cases hdigits
      rw [intValue?, if_neg hminus, hvalue]
      rfl

theorem intValue?_minus {digits : List Char} (hdigits : isNumeral digits = true) :
    intValue? ('-' :: digits) = some (-Nat.ofDigitChars 10 digits 0 : Int) := by
  rw [intValue?, if_pos rfl, Decimal.value?_eq_some_iff.mpr ⟨hdigits, rfl⟩]
  rfl

/-- An integer is an operand if its value fits a word. -/
theorem ofToken?_int_eq_some_iff {chars : List Char} {value : Int} {kind : OperandKind}
    (hvalue : intValue? chars = some value) :
    OperandKind.ofToken? ⟨.int, chars⟩ = some kind ↔
      kind = .int value ∧ -2147483648 ≤ value ∧ value ≤ 2147483647 := by
  simp [OperandKind.ofToken?, hvalue, Option.filter_some, fitsWord]
  grind

/-! ## Operands -/

theorem wordKind_of_not_mem {name : List Char} (hname : name ∉ keywords) :
    wordKind name = .name := by
  simp only [keywords, List.mem_cons, List.not_mem_nil, or_false, not_or] at hname
  simp only [wordKind, hname, if_false]

theorem IsDots.dot_mem {dots : List Char} (hdots : IsDots dots) (hne : dots ≠ []) :
    '.' ∈ dots := by
  cases hdots with
  | nil => exact absurd rfl hne
  | cons => exact List.mem_cons_self

theorem denotes_label {name dots : List Char} (hname : isName name = true) (hdots : IsDots dots)
    (hword : name ++ dots ∉ keywords) : Denotes .label (name ++ dots) := by
  obtain ⟨names, hne, hnames, hjoined⟩ :=
    exists_intercalate_iff.mp ⟨name, dots, hname, hdots, rfl⟩
  rw [hjoined] at hword ⊢
  exact .label hne hnames hword

theorem denotes_word {name : List Char} {kind : OperandKind} (hname : isName name = true)
    (hkind : OperandKind.ofToken? ⟨wordKind name, name⟩ = some kind) : Denotes kind name := by
  by_cases hword : name ∈ keywords
  · simp only [keywords, List.mem_cons, List.not_mem_nil, or_false] at hword
    rcases hword with rfl | rfl | rfl | rfl
    · cases hkind
      exact .this
    · cases hkind
      exact .trueWord
    · cases hkind
      exact .falseWord
    · cases hkind
      exact .null
  · rw [wordKind_of_not_mem hword] at hkind
    cases hkind
    simpa using denotes_label hname .nil (by simpa using hword)

/-- A text of a form that is an operand is in the grammar. -/
theorem Written.denotes {form : TokenKind} {chars : List Char} {kind : OperandKind}
    (hform : Written form chars)
    (hkind : OperandKind.ofToken? ⟨form, chars⟩ = some kind) : Denotes kind chars := by
  cases hform with
  | word hname => exact denotes_word hname hkind
  | var hname hmark =>
      cases hkind
      have hname := isName_iff.mp hname
      cases hmark with
      | «local» => exact .localVar hname
      | param => exact .param hname
      | field howner => exact .field hname (isName_iff.mp howner)
  | dotted hname hdots hne =>
      cases hkind
      -- no keyword has a dot in it
      refine denotes_label hname hdots fun hword => ?_
      have hdot : ∀ word ∈ keywords, '.' ∉ word := by decide
      exact hdot _ hword (List.mem_append_right _ (hdots.dot_mem hne))
  | int hdigits =>
      obtain ⟨rfl, _, hfits⟩ := (ofToken?_int_eq_some_iff (intValue?_of_isNumeral hdigits)).mp hkind
      exact .int (isNumeral_iff_isNumber.mp hdigits) rfl hfits
  | negative hdigits =>
      obtain ⟨rfl, hfits, _⟩ := (ofToken?_int_eq_some_iff (intValue?_minus hdigits)).mp hkind
      exact .negative (isNumeral_iff_isNumber.mp hdigits) rfl hfits
  | str htail =>
      cases hkind
      obtain ⟨pieces, hpieces, rfl⟩ := isStringTail_iff.mp htail
      exact .str hpieces
  | temp hc hdigits =>
      cases hkind
      exact .temp hc (isNumeral_iff_isNumber.mp hdigits)

/-- A text of the grammar has a form that is an operand. -/
theorem Denotes.exists_written {kind : OperandKind} {chars : List Char}
    (hdenotes : Denotes kind chars) :
    ∃ form, Written form chars ∧ OperandKind.ofToken? ⟨form, chars⟩ = some kind := by
  cases hdenotes with
  | this => exact ⟨_, .word (by decide), rfl⟩
  | trueWord => exact ⟨_, .word (by decide), rfl⟩
  | falseWord => exact ⟨_, .word (by decide), rfl⟩
  | null => exact ⟨_, .word (by decide), rfl⟩
  | localVar hname => exact ⟨_, .var (isName_iff.mpr hname) .local, rfl⟩
  | param hname => exact ⟨_, .var (isName_iff.mpr hname) .param, rfl⟩
  | field hname howner =>
      exact ⟨_, .var (isName_iff.mpr hname) (.field (isName_iff.mpr howner)), rfl⟩
  | temp hc hdigits => exact ⟨_, .temp hc (isNumeral_iff_isNumber.mpr hdigits), rfl⟩
  | int hdigits hvalue hfits =>
      have hdigits := isNumeral_iff_isNumber.mpr hdigits
      refine ⟨_, .int hdigits, (ofToken?_int_eq_some_iff (intValue?_of_isNumeral hdigits)).mpr ?_⟩
      exact ⟨by rw [hvalue], by omega, by omega⟩
  | negative hdigits hvalue hfits =>
      have hdigits := isNumeral_iff_isNumber.mpr hdigits
      refine ⟨_, .negative hdigits, (ofToken?_int_eq_some_iff (intValue?_minus hdigits)).mpr ?_⟩
      exact ⟨by rw [hvalue], by omega, by omega⟩
  | str hpieces => exact ⟨_, .str (isStringTail_iff.mpr ⟨_, hpieces, rfl⟩), rfl⟩
  | label hne hnames hword =>
      obtain ⟨name, dots, hname, hdots, hjoined⟩ := exists_intercalate_iff.mpr ⟨_, hne, hnames, rfl⟩
      rw [hjoined] at hword ⊢
      by_cases hnil : dots = []
      · subst hnil
        rw [List.append_nil] at hword ⊢
        refine ⟨_, .word hname, ?_⟩
        rw [wordKind_of_not_mem hword]
        rfl
      · exact ⟨_, .dotted hname hdots hnil, rfl⟩

theorem OperandKind.of?_eq_some_iff_written {operand : String} {kind : OperandKind} :
    OperandKind.of? operand = some kind ↔
      ∃ form, Written form operand.toList ∧
        OperandKind.ofToken? ⟨form, operand.toList⟩ = some kind := by
  refine ⟨OperandKind.exists_written, ?_⟩
  rintro ⟨form, hform, hkind⟩
  have htoken := at?_of_written hform delimits_nil
  rw [List.append_nil] at htoken
  rw [OperandKind.of?, htoken]
  exact (if_pos rfl).trans hkind

theorem OperandKind.of?_eq_some_iff_denotes {operand : String} {kind : OperandKind} :
    OperandKind.of? operand = some kind ↔ Denotes kind operand.toList := by
  rw [OperandKind.of?_eq_some_iff_written]
  exact ⟨fun ⟨_, hform, hkind⟩ => hform.denotes hkind, Denotes.exists_written⟩

/-! ## Blanks -/

theorem isBlank_eq_false_of_isNamePart {c : Char} (hc : isNamePart c = true) :
    isBlank c = false := by
  by_contra hblank
  simp only [isBlank, Bool.not_eq_false, Bool.or_eq_true, beq_iff_eq] at hblank
  rcases hblank with (((rfl | rfl) | rfl) | rfl) | rfl <;> exact absurd hc (by decide)

theorem isBlank_eq_false_of_mem_name {name : List Char} (hname : isName name = true) :
    ∀ c ∈ name, isBlank c = false := by
  have hparts : ∀ c ∈ name, isNamePart c = true := by
    cases isName_iff.mp hname with
    | cons hfirst hrest =>
        simp only [isNamePart_iff]
        exact List.forall_mem_cons.mpr ⟨hfirst.imp_right .inr, hrest⟩
  exact fun c hc => isBlank_eq_false_of_isNamePart (hparts c hc)

theorem isBlank_eq_false_of_mem_numeral {digits : List Char} (hdigits : isNumeral digits = true) :
    ∀ c ∈ digits, isBlank c = false := by
  intro c hc
  apply isBlank_eq_false_of_isNamePart
  exact isNamePart_of_isDigit (isDigit_iff.mpr ((isNumeral_iff_isNumber.mp hdigits).digit c hc))

theorem IsMark.isBlank_eq_false {mark : List Char} (hmark : IsMark mark) :
    ∀ c ∈ mark, isBlank c = false := by
  have hfixed {chars : List Char} (hall : (chars.all fun c => !isBlank c) = true) :
      ∀ c ∈ chars, isBlank c = false := by
    intro c hc
    have hblank := List.all_eq_true.mp hall c hc
    rwa [Bool.not_eq_true'] at hblank
  cases hmark with
  | «local» => exact hfixed rfl
  | param => exact hfixed rfl
  | field hname =>
      have hmark : ∀ c ∈ ['$', 'f', '_'], isBlank c = false := hfixed rfl
      exact List.forall_mem_append.mpr ⟨hmark, isBlank_eq_false_of_mem_name hname⟩

theorem IsDots.isBlank_eq_false {dots : List Char} (hdots : IsDots dots) :
    ∀ c ∈ dots, isBlank c = false := by
  induction hdots with
  | nil => exact fun c hc => absurd hc List.not_mem_nil
  | cons hname _ ih =>
      exact List.forall_mem_cons.mpr
        ⟨by decide, List.forall_mem_append.mpr ⟨isBlank_eq_false_of_mem_name hname, ih⟩⟩

/-- Only strings have blanks, and they have them between their quotes. -/
theorem Written.isBlank_eq_false_of_end {form : TokenKind} {chars : List Char}
    (hform : Written form chars) {c : Char} (hc : c ∈ chars.head? ∨ c ∈ chars.getLast?) :
    isBlank c = false := by
  have hmem : c ∈ chars := hc.elim List.mem_of_mem_head? List.mem_of_mem_getLast?
  cases hform with
  | word hname => exact isBlank_eq_false_of_mem_name hname c hmem
  | var hname hmark =>
      exact (List.mem_append.mp hmem).elim (isBlank_eq_false_of_mem_name hname c)
        (hmark.isBlank_eq_false c)
  | dotted hname hdots =>
      exact (List.mem_append.mp hmem).elim (isBlank_eq_false_of_mem_name hname c)
        (hdots.isBlank_eq_false c)
  | int hdigits => exact isBlank_eq_false_of_mem_numeral hdigits c hmem
  | negative hdigits =>
      rcases List.mem_cons.mp hmem with rfl | hmem
      · decide
      · exact isBlank_eq_false_of_mem_numeral hdigits c hmem
  | str htail =>
      -- a string may have blanks inside, but it starts and ends with a quote
      obtain ⟨pieces, _, rfl⟩ := isStringTail_iff.mp htail
      rw [← List.cons_append, List.getLast?_concat] at hc
      obtain rfl : '"' = c := by simpa using hc
      decide
  | temp hletter hdigits =>
      simp only [List.mem_cons] at hmem
      rcases hmem with rfl | rfl | hmem
      · decide
      · rcases hletter with rfl | rfl <;> decide
      · exact isBlank_eq_false_of_mem_numeral hdigits c hmem

/-- Every text has the kind that the grammar gives it, and is no operand if the grammar gives
it none; so a text that starts or ends with a blank is no operand. -/
theorem OperandKind.of?_classifies (operand : String) :
    (∀ kind, OperandKind.of? operand = some kind ↔ Denotes kind operand.toList) ∧
      (OperandKind.of? operand = none ↔ ∀ kind, ¬ Denotes kind operand.toList) ∧
      (∀ c, c ∈ operand.toList.head? ∨ c ∈ operand.toList.getLast? → isBlank c = true →
        OperandKind.of? operand = none) := by
  refine ⟨fun kind => of?_eq_some_iff_denotes, ?_, fun c hc hblank => ?_⟩
  · simp only [← of?_eq_some_iff_denotes, Option.eq_none_iff_forall_ne_some, ne_eq]
  · rw [Option.eq_none_iff_forall_ne_some]
    intro kind hkind
    obtain ⟨form, hform, _⟩ := of?_eq_some_iff_written.mp hkind
    rw [hform.isBlank_eq_false_of_end hc] at hblank
    cases hblank

end ClassLang.Code
