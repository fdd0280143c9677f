/-
# The longest match

Each form of token is a set of texts, given here by a grammar over single characters and
without a search. At every place of a text the scanner takes the longest piece that has one
of the forms, and it finds no token just where no piece has any. Two forms share texts only
in one case: a keyword is a name as well. There the keyword is taken, unless a dot or a
dollar sign follows directly, which might have made the token longer.
-/

import ClassLang.Proofs.Code.Classification

namespace ClassLang.Code

/-! ## The forms -/

/-- The keywords, each with its form. -/
inductive IsKeyword : TokenKind → List Char → Prop
  | this : IsKeyword .thisWord ['t', 'h', 'i', 's']
  | trueWord : IsKeyword .trueWord ['t', 'r', 'u', 'e']
  | falseWord : IsKeyword .falseWord ['f', 'a', 'l', 's', 'e']
  | null : IsKeyword .nullWord ['n', 'u', 'l', 'l']

/-- The texts of each form. -/
inductive Fits : TokenKind → List Char → Prop
  | keyword {kind : TokenKind} {word : List Char} (hword : IsKeyword kind word) : Fits kind word
  | int {digits : List Char} (hdigits : IsNumber digits) : Fits .int digits
  | negative {digits : List Char} (hdigits : IsNumber digits) : Fits .int ('-' :: digits)
  | str {pieces : List (List Char)} (hpieces : ∀ piece ∈ pieces, IsPiece piece) :
      Fits .str ('"' :: (pieces.flatten ++ ['"']))
  | temp {c : Char} {digits : List Char} (hc : c = 't' ∨ c = 'o') (hdigits : IsNumber digits) :
      Fits .temp ('$' :: c :: digits)
  | localVar {name : List Char} (hname : IsIdent name) : Fits .var (name ++ ['$', 'l'])
  | param {name : List Char} (hname : IsIdent name) : Fits .var (name ++ ['$', 'p'])
  | field {name owner : List Char} (hname : IsIdent name) (howner : IsIdent owner) :
      Fits .var (name ++ (['$', 'f', '_'] ++ owner))
  | name {name : List Char} (hname : IsIdent name) : Fits .name name
  | dotted {first second : List Char} {names : List (List Char)}
      (hnames : ∀ name ∈ first :: second :: names, IsIdent name) :
      Fits .dotted (['.'].intercalate (first :: second :: names))
  | symbol (symbol : Symbol) : Fits (.symbol symbol) symbol.chars
  | comment {body : List Char} (hbody : '\n' ∉ body) : Fits .comment ('/' :: '/' :: body)

/-- The rest of a text begins with a sign that can stand inside a token that starts with a
name. -/
def LeadsOn (rest : List Char) : Prop :=
  ∃ c ∈ rest.head?, c = '.' ∨ c = '$'

/-- A token that is the longest match before the rest of a text. -/
structure Longest (kind : TokenKind) (chars rest : List Char) : Prop where
  fits : Fits kind chars
  longest : ∀ {other : TokenKind} {piece : List Char}, Fits other piece →
    piece <+: chars ++ rest → piece.length ≤ chars.length
  /-- A keyword is not taken for a name, -/
  keyword : ∀ {word : TokenKind}, IsKeyword word chars → ¬ LeadsOn rest → kind = word
  /-- unless the token could have gone on. -/
  name : IsIdent chars → LeadsOn rest → kind = .name

/-! ## Forms and written operands -/

namespace IsKeyword

variable {kind : TokenKind} {word : List Char}

theorem isName (hword : IsKeyword kind word) : Code.isName word = true := by
  cases hword <;> rfl

theorem wordKind_eq (hword : IsKeyword kind word) : wordKind word = kind := by
  cases hword <;> rfl

theorem kind_ne_name (hword : IsKeyword kind word) : kind ≠ .name := by
  cases hword <;> exact fun hkind => TokenKind.noConfusion hkind

end IsKeyword

/-- A name is a keyword or just a name. -/
theorem isKeyword_wordKind_or (name : List Char) :
    IsKeyword (wordKind name) name ∨ wordKind name = .name := by
  by_cases hword : name ∈ keywords
  · simp only [keywords, List.mem_cons, List.not_mem_nil, or_false] at hword
    left
    rcases hword with rfl | rfl | rfl | rfl
    · exact .this
    · exact .trueWord
    · exact .falseWord
    · exact .null
  · exact .inr (wordKind_of_not_mem hword)

theorem Written.fits {kind : TokenKind} {chars : List Char} (hform : Written kind chars) :
    Fits kind chars := by
  cases hform with
  | word hname =>
      rcases isKeyword_wordKind_or chars with hword | hplain
      · exact .keyword hword
      · rw [hplain]
        exact .name (isName_iff.mp hname)
  | var hname hmark =>
      have hname := isName_iff.mp hname
      cases hmark with
      | «local» => exact .localVar hname
      | param => exact .param hname
      | field howner => exact .field hname (isName_iff.mp howner)
  | dotted hname hdots hne =>
      cases hdots with
      | nil => exact absurd rfl hne
      | cons hnext hdots =>
          obtain ⟨names, hnil, hnames, hjoined⟩ :=
            exists_intercalate_iff.mp ⟨_, _, hnext, hdots, rfl⟩
          obtain ⟨second, names, rfl⟩ := List.exists_cons_of_ne_nil hnil
          have hfits := Fits.dotted (List.forall_mem_cons.mpr ⟨isName_iff.mp hname, hnames⟩)
          rwa [List.intercalate_cons_cons, ← hjoined, List.append_assoc] at hfits
  | int hdigits => exact .int (isNumeral_iff_isNumber.mp hdigits)
  | negative hdigits => exact .negative (isNumeral_iff_isNumber.mp hdigits)
  | str htail =>
      obtain ⟨pieces, hpieces, rfl⟩ := isStringTail_iff.mp htail
      exact .str hpieces
  | temp hc hdigits => exact .temp hc (isNumeral_iff_isNumber.mp hdigits)

theorem Found.fits {token : Token} {rest : List Char} (hfound : Found token rest) :
    Fits token.kind token.chars := by
  cases hfound with
  | written hform => exact hform.fits
  | stub hname => exact .name (isName_iff.mp hname)
  | symbol symbol => exact .symbol symbol
  | comment hbody => exact .comment hbody

/-- Every text of a form can be found somewhere, a keyword also as a name. -/
theorem Fits.exists_found {kind : TokenKind} {chars : List Char} (hfits : Fits kind chars) :
    ∃ rest, Found ⟨kind, chars⟩ rest := by
  have hwritten (hform : Written kind chars) : ∃ rest, Found ⟨kind, chars⟩ rest :=
    ⟨[], .written hform⟩
  cases hfits with
  | keyword hword =>
      have hform := Written.word hword.isName
      rw [hword.wordKind_eq] at hform
      exact hwritten hform
  | int hdigits => exact hwritten (.int (isNumeral_iff_isNumber.mpr hdigits))
  | negative hdigits => exact hwritten (.negative (isNumeral_iff_isNumber.mpr hdigits))
  | str hpieces => exact hwritten (.str (isStringTail_iff.mpr ⟨_, hpieces, rfl⟩))
  | temp hc hdigits => exact hwritten (.temp hc (isNumeral_iff_isNumber.mpr hdigits))
  | localVar hname => exact hwritten (.var (isName_iff.mpr hname) .local)
  | param hname => exact hwritten (.var (isName_iff.mpr hname) .param)
  | field hname howner =>
      exact hwritten (.var (isName_iff.mpr hname) (.field (isName_iff.mpr howner)))
  | name hname => exact ⟨['$'], .stub (isName_iff.mpr hname) ⟨'$', rfl, .inr rfl⟩⟩
  | dotted hnames =>
      rw [List.forall_mem_cons] at hnames
      obtain ⟨next, dots, hnext, hdots, hjoined⟩ :=
        exists_intercalate_iff.mpr ⟨_, List.cons_ne_nil _ _, hnames.2, rfl⟩
      have hform := Written.dotted (isName_iff.mpr hnames.1) (.cons hnext hdots)
        (List.cons_ne_nil _ _)
      refine hwritten ?_
      rwa [List.intercalate_cons_cons, hjoined, List.append_assoc]
  | symbol symbol => exact ⟨[], .symbol symbol []⟩
  | comment hbody => exact ⟨[], .comment hbody⟩

/-! ## Tokens that stand apart -/

/-- A token as it is where a blank or nothing follows it: a keyword is then a keyword. -/
def Token.apart (token : Token) : Token :=
  if token.kind = .name then ⟨wordKind token.chars, token.chars⟩ else token

/-- The blank that keeps a token apart from the next one. A space would not end a comment. -/
def TokenKind.separator (kind : TokenKind) : Char :=
  if kind = .comment then '\n' else ' '

theorem Token.apart_of_ne_name {token : Token} (hkind : token.kind ≠ .name) :
    token.apart = token :=
  if_neg hkind

theorem Token.apart_word (name : List Char) :
    Token.apart ⟨wordKind name, name⟩ = ⟨wordKind name, name⟩ := by
  unfold Token.apart
  split <;> rfl

theorem Token.apart_of_not_keyword {token : Token}
    (hword : ∀ word, ¬ IsKeyword word token.chars) : token.apart = token := by
  unfold Token.apart
  split
  next hname => rw [(isKeyword_wordKind_or token.chars).resolve_left (hword _), ← hname]
  next => rfl

theorem Written.apart_eq {kind : TokenKind} {chars : List Char} (hform : Written kind chars) :
    Token.apart ⟨kind, chars⟩ = ⟨kind, chars⟩ := by
  cases hform with
  | word => exact Token.apart_word chars
  | _ => exact Token.apart_of_ne_name fun hkind => TokenKind.noConfusion hkind

theorem Fits.at?_apart {kind : TokenKind} {chars rest : List Char} (hfits : Fits kind chars)
    (hrest : ∀ c ∈ rest.head?, c = kind.separator) :
    Token.at? (chars ++ rest) = some (Token.apart ⟨kind, chars⟩) := by
  have hspace (hkind : kind ≠ .comment) : ∀ c ∈ rest.head?, c = ' ' := by
    intro c hc
    rw [hrest c hc, TokenKind.separator, if_neg hkind]
  have hdelimits (hkind : kind ≠ .comment) : Delimits rest := by
    intro c hc
    rw [hspace hkind c hc]
    decide
  obtain ⟨_, hfound⟩ := hfits.exists_found
  cases hfound with
  | written hform => rw [hform.apart_eq, at?_of_written hform (hdelimits hform.kind_ne.1)]
  | stub hname =>
      exact at?_of_written (.word hname) (hdelimits fun hkind => TokenKind.noConfusion hkind)
  | symbol symbol =>
      apply at?_symbol_append
      intro c hc
      rw [hspace (fun hkind => TokenKind.noConfusion hkind) c hc]
      exact symbol.growsBy_space
  | comment hbody => exact at?_comment_append hbody hrest

/-! ## The scanner goes as far as any match -/

theorem length_le_takeWhile {p : Char → Bool} {run : List Char} (hrun : ∀ c ∈ run, p c = true)
    (rest : List Char) : run.length ≤ ((run ++ rest).takeWhile p).length := by
  rw [List.takeWhile_append_of_pos hrun, List.length_append]
  exact Nat.le_add_right _ _

theorem length_le_digitsAt {digits : List Char} (hdigits : isNumeral digits = true)
    (rest : List Char) : digits.length ≤ (Decimal.digitsAt (digits ++ rest)).length :=
  length_le_takeWhile (isNumeral_iff.mp hdigits).2 rest

theorem length_le_nameAt {name : List Char} (hname : isName name = true) (rest : List Char) :
    name.length ≤ (nameAt (name ++ rest)).length := by
  cases name with
  | nil => cases hname
  | cons c name =>
      rw [isName, Bool.and_eq_true, List.all_eq_true] at hname
      rw [List.cons_append, nameAt, if_pos hname.1]
      exact Nat.succ_le_succ (length_le_takeWhile hname.2 rest)

theorem nameAt_append_ne_nil {name : List Char} (hname : isName name = true) (rest : List Char) :
    nameAt (name ++ rest) ≠ [] := by
  have hlength := length_le_nameAt hname rest
  intro hnone
  rw [hnone, List.length_nil, Nat.le_zero, List.length_eq_zero_iff] at hlength
  rw [hlength] at hname
  cases hname

theorem length_le_markAt {mark : List Char} (hmark : IsMark mark) (rest : List Char) :
    mark.length ≤ (markAt (mark ++ rest)).length := by
  cases hmark with
  | «local» => exact Nat.le_refl _
  | param => exact Nat.le_refl _
  | field hname =>
      have hlength := length_le_nameAt hname rest
      simp only [List.cons_append, markAt]
      split
      next hnone => exact absurd hnone (nameAt_append_ne_nil hname rest)
      next => simpa using hlength

/-- Each dot but the last has a whole name after it; the last name can be longer. -/
theorem length_le_dotsAt {dots : List Char} (hdots : IsDots dots) (rest : List Char) :
    dots.length ≤ (dotsAt (dots ++ rest)).length := by
  induction hdots with
  | nil => exact Nat.zero_le _
  | @cons name dots hname hdots ih =>
      have hlength := length_le_nameAt hname (dots ++ rest)
      have hdotsAt : dotsAt ('.' :: (name ++ (dots ++ rest))) =
          '.' :: (nameAt (name ++ (dots ++ rest)) ++
            dotsAt ((name ++ (dots ++ rest)).drop (nameAt (name ++ (dots ++ rest))).length)) := by
        rw [dotsAt, if_pos rfl]
        split
        next hnone => exact absurd hnone (nameAt_append_ne_nil hname _)
        next => rfl
      rw [List.cons_append, List.append_assoc, hdotsAt]
      cases hdots with
      | nil =>
          simp only [List.append_nil, List.length_cons, List.length_append] at hlength ⊢
          omega
      | @cons next dots hnext hdots =>
          have hfound : nameAt (name ++ ('.' :: (next ++ dots) ++ rest)) = name :=
            nameAt_append hname fun c hc => by
              obtain rfl : '.' = c := by simpa using hc
              rfl
          rw [hfound, List.drop_left]
          simp only [List.length_cons, List.length_append] at ih ⊢
          omega

theorem wordToken_of_markAt {name rest : List Char} (hmark : markAt rest ≠ []) :
    wordToken name rest = ⟨.var, name ++ markAt rest⟩ := by
  unfold wordToken
  split
  next hnone _ => exact absurd hnone hmark
  next hnone _ => exact absurd hnone hmark
  next => rfl

theorem wordToken_of_dotsAt {name rest : List Char} (hmark : markAt rest = [])
    (hdots : dotsAt rest ≠ []) : wordToken name rest = ⟨.dotted, name ++ dotsAt rest⟩ := by
  unfold wordToken
  split
  next hnone => exact absurd hnone hdots
  next => rfl
  next hsome _ => exact absurd hmark hsome

theorem wordToken_of_none {name rest : List Char} (hmark : markAt rest = [])
    (hdots : dotsAt rest = []) :
    (LeadsOn rest → wordToken name rest = ⟨.name, name⟩) ∧
      (¬ LeadsOn rest → wordToken name rest = ⟨wordKind name, name⟩) := by
  simp only [wordToken, hmark, hdots]
  cases rest with
  | nil => simp [LeadsOn]
  | cons c rest => simp +contextual [LeadsOn]

theorem isPrefix_wordToken (name rest : List Char) : name <+: (wordToken name rest).chars := by
  unfold wordToken
  repeat' split
  all_goals simp

theorem at?_of_isName {name : List Char} (hname : isName name = true) (rest : List Char) :
    Token.at? (name ++ rest) = some (wordToken (nameAt (name ++ rest))
      ((name ++ rest).drop (nameAt (name ++ rest)).length)) := by
  cases name with
  | nil => cases hname
  | cons c name =>
      rw [isName, Bool.and_eq_true] at hname
      simp only [List.cons_append, Token.at?, hname.1, if_true]

/-- The scanner finds a token at least as long as this piece at the head of the text. -/
def Reaches (piece text : List Char) : Prop :=
  ∃ token, Token.at? text = some token ∧ piece.length ≤ token.chars.length

theorem reaches_name {name : List Char} (hname : isName name = true) (rest : List Char) :
    Reaches name (name ++ rest) :=
  ⟨_, at?_of_isName hname rest,
    (length_le_nameAt hname rest).trans (isPrefix_wordToken _ _).length_le⟩

theorem reaches_var {name mark : List Char} (hname : isName name = true) (hmark : IsMark mark)
    (rest : List Char) : Reaches (name ++ mark) (name ++ mark ++ rest) := by
  have hhead : ∀ c ∈ (mark ++ rest).head?, isNamePart c = false := by
    cases hmark <;> simp [isNamePart]
  have hlength := length_le_markAt hmark rest
  have hne : markAt (mark ++ rest) ≠ [] := by
    intro hnone
    rw [hnone] at hlength
    cases hmark <;> cases hlength
  rw [List.append_assoc]
  refine ⟨_, at?_name_append hname hhead, ?_⟩
  rw [wordToken_of_markAt hne, List.length_append, List.length_append]
  exact Nat.add_le_add_left hlength _

theorem reaches_dotted {name dots : List Char} (hname : isName name = true) (hdots : IsDots dots)
    (hne : dots ≠ []) (rest : List Char) : Reaches (name ++ dots) (name ++ dots ++ rest) := by
  have hhead : ∀ c ∈ (dots ++ rest).head?, c = '.' := by
    cases hdots with
    | nil => exact absurd rfl hne
    | cons => simp
  have hlength := length_le_dotsAt hdots rest
  have hmark : markAt (dots ++ rest) = [] :=
    markAt_eq_nil fun c hc => by simp [hhead c hc]
  have hdotsAt : dotsAt (dots ++ rest) ≠ [] := by
    intro hnone
    rw [hnone, List.length_nil, Nat.le_zero, List.length_eq_zero_iff] at hlength
    exact hne hlength
  rw [List.append_assoc]
  refine ⟨_, at?_name_append hname fun c hc => by simp [hhead c hc, isNamePart], ?_⟩
  rw [wordToken_of_dotsAt hmark hdotsAt, List.length_append, List.length_append]
  exact Nat.add_le_add_left hlength _

theorem reaches_int {digits : List Char} (hdigits : isNumeral digits = true) (rest : List Char) :
    Reaches digits (digits ++ rest) := by
  have hlength := length_le_digitsAt hdigits rest
  cases digits with
  | nil => cases hdigits
  | cons c digits =>
      have hdigit := (isNumeral_iff.mp hdigits).2 c List.mem_cons_self
      refine ⟨⟨.int, c :: Decimal.digitsAt (digits ++ rest)⟩, ?_, ?_⟩
      · simp only [List.cons_append, Token.at?, isNameStart_eq_false_of_isDigit hdigit, hdigit,
          if_true, Bool.false_eq_true, if_false]
      · rwa [List.cons_append, Decimal.digitsAt, List.takeWhile_cons_of_pos hdigit] at hlength

theorem digitsAt_append_ne_nil {digits : List Char} (hdigits : isNumeral digits = true)
    (rest : List Char) : Decimal.digitsAt (digits ++ rest) ≠ [] := by
  have hlength := length_le_digitsAt hdigits rest
  intro hnone
  rw [hnone, List.length_nil, Nat.le_zero, List.length_eq_zero_iff] at hlength
  exact ne_nil_of_isNumeral hdigits hlength

/-- A symbol is found unless a longer token begins with it, and then that one is. -/
theorem reaches_symbol (symbol : Symbol) (rest : List Char) :
    Reaches symbol.chars (symbol.chars ++ rest) := by
  by_cases hgrows : ∀ c ∈ rest.head?, symbol.growsBy c = false
  · exact ⟨_, at?_symbol_append hgrows, Nat.le_refl _⟩
  · simp only [not_forall, Bool.not_eq_false] at hgrows
    obtain ⟨c, hc, hgrow⟩ := hgrows
    obtain ⟨rest, rfl⟩ := List.head?_eq_some_iff.mp hc
    have hdouble {longer : Symbol} (hlast : ∀ c, longer.growsBy c = false)
        (hchars : longer.chars = symbol.chars ++ [c]) :
        Reaches symbol.chars (symbol.chars ++ c :: rest) := by
      rw [List.append_cons, ← hchars]
      refine ⟨_, at?_symbol_append fun c _ => hlast c, ?_⟩
      rw [Symbol.token, hchars, List.length_append]
      exact Nat.le_add_right _ _
    cases symbol with
    | assign =>
        cases beq_iff_eq.mp hgrow
        exact hdouble (fun _ => rfl) (show Symbol.equal.chars = _ from rfl)
    | bang =>
        cases beq_iff_eq.mp hgrow
        exact hdouble (fun _ => rfl) (show Symbol.notEqual.chars = _ from rfl)
    | less =>
        cases beq_iff_eq.mp hgrow
        exact hdouble (fun _ => rfl) (show Symbol.lessEqual.chars = _ from rfl)
    | greater =>
        cases beq_iff_eq.mp hgrow
        exact hdouble (fun _ => rfl) (show Symbol.greaterEqual.chars = _ from rfl)
    | ampersand =>
        cases beq_iff_eq.mp hgrow
        exact hdouble (fun _ => rfl) (show Symbol.andAnd.chars = _ from rfl)
    | slash =>
        cases beq_iff_eq.mp hgrow
        refine ⟨⟨.comment, '/' :: '/' :: rest.takeWhile (· != '\n')⟩, ?_, ?_⟩
        · simp [Symbol.chars, Token.at?, isNameStart]
        · simp [Symbol.chars]
    | minus =>
        refine ⟨⟨.int, '-' :: Decimal.digitsAt (c :: rest)⟩, ?_, ?_⟩
        · have hdigit : c.isDigit = true := hgrow
          simp [Symbol.chars, Token.at?, isNameStart, Decimal.digitsAt, hdigit]
        · simp [Symbol.chars]
    | _ => cases hgrow

/-- No piece at the head of a text is longer than the token that is found there. -/
theorem Fits.reaches {kind : TokenKind} {piece : List Char} (hfits : Fits kind piece)
    (rest : List Char) : Reaches piece (piece ++ rest) := by
  obtain ⟨_, hfound⟩ := hfits.exists_found
  cases hfound with
  | written hform =>
      cases hform with
      | word hname => exact reaches_name hname rest
      | var hname hmark => exact reaches_var hname hmark rest
      | dotted hname hdots hne => exact reaches_dotted hname hdots hne rest
      | int hdigits => exact reaches_int hdigits rest
      | @negative digits hdigits =>
          refine ⟨⟨.int, '-' :: Decimal.digitsAt (digits ++ rest)⟩, ?_,
            Nat.succ_le_succ (length_le_digitsAt hdigits rest)⟩
          simp [Token.at?, digitsAt_append_ne_nil hdigits rest, isNameStart]
      | @str tail htail =>
          refine ⟨⟨.str, '"' :: tail⟩, ?_, Nat.le_refl _⟩
          simp [Token.at?, stringTail_append htail rest, isNameStart]
      | @temp c digits hc hdigits =>
          refine ⟨⟨.temp, '$' :: c :: Decimal.digitsAt (digits ++ rest)⟩, ?_,
            Nat.succ_le_succ (Nat.succ_le_succ (length_le_digitsAt hdigits rest))⟩
          simp [Token.at?, hc, digitsAt_append_ne_nil hdigits rest, isNameStart]
  | stub hname => exact reaches_name hname rest
  | symbol symbol => exact reaches_symbol symbol rest
  | @comment body _ hbody =>
      refine ⟨⟨.comment, '/' :: '/' :: (body ++ rest).takeWhile (· != '\n')⟩, ?_, ?_⟩
      · simp [Token.at?, isNameStart]
      · apply Nat.succ_le_succ
        apply Nat.succ_le_succ
        apply length_le_takeWhile
        intro c hc
        simpa using ne_of_mem_of_not_mem hc hbody

/-! ## The scanner takes the longest match -/

variable {kind : TokenKind} {chars rest : List Char}

theorem length_le_of_at? {token : Token} (htoken : Token.at? (chars ++ rest) = some token)
    (hfits : Fits kind chars) : chars.length ≤ token.chars.length := by
  obtain ⟨found, hfound, hlength⟩ := hfits.reaches rest
  rw [htoken] at hfound
  cases hfound
  exact hlength

/-- A token that is a name ends where the name ends. -/
theorem wordToken_of_at? (hname : isName chars = true)
    (htoken : Token.at? (chars ++ rest) = some ⟨kind, chars⟩) :
    wordToken chars rest = ⟨kind, chars⟩ := by
  rw [at?_of_isName hname] at htoken
  have htoken := Option.some.inj htoken
  have hlength := length_le_nameAt hname rest
  have hfound : nameAt (chars ++ rest) = chars := by
    have hinitial := isPrefix_wordToken (nameAt (chars ++ rest))
      ((chars ++ rest).drop (nameAt (chars ++ rest)).length)
    rw [htoken] at hinitial
    exact hinitial.eq_of_length_le hlength
  rwa [hfound, List.drop_left] at htoken

theorem kind_of_at?_name (hname : isName chars = true)
    (htoken : Token.at? (chars ++ rest) = some ⟨kind, chars⟩) :
    (LeadsOn rest → kind = .name) ∧ (¬ LeadsOn rest → kind = wordKind chars) := by
  have hword := wordToken_of_at? hname htoken
  have hmark : markAt rest = [] := by
    by_contra hmark
    rw [wordToken_of_markAt hmark] at hword
    exact hmark (List.append_right_eq_self.mp (congrArg Token.chars hword))
  have hdots : dotsAt rest = [] := by
    by_contra hdots
    rw [wordToken_of_dotsAt hmark hdots] at hword
    exact hdots (List.append_right_eq_self.mp (congrArg Token.chars hword))
  obtain ⟨hleads, hends⟩ := @wordToken_of_none chars rest hmark hdots
  rw [hword] at hleads hends
  exact ⟨fun h => congrArg Token.kind (hleads h), fun h => congrArg Token.kind (hends h)⟩

theorem longest_of_at? (htoken : Token.at? (chars ++ rest) = some ⟨kind, chars⟩) :
    Longest kind chars rest where
  fits := by
    obtain ⟨_, _, hfound⟩ := found_of_at? htoken
    exact hfound.fits
  longest := by
    rintro other piece hfits ⟨after, hafter⟩
    rw [← hafter] at htoken
    exact length_le_of_at? htoken hfits
  keyword := by
    intro word hword hends
    rw [← hword.wordKind_eq]
    exact (kind_of_at?_name hword.isName htoken).2 hends
  name := fun hname hleads => (kind_of_at?_name (isName_iff.mpr hname) htoken).1 hleads

/-- The longest match has one form only. -/
theorem Longest.kind_unique {other : TokenKind} (hlongest : Longest kind chars rest)
    (hother : Longest other chars rest) : kind = other := by
  by_cases hword : ∃ word, IsKeyword word chars
  · obtain ⟨word, hword⟩ := hword
    by_cases hleads : LeadsOn rest
    · have hname := isName_iff.mp hword.isName
      rw [hlongest.name hname hleads, hother.name hname hleads]
    · rw [hlongest.keyword hword hleads, hother.keyword hword hleads]
  · have hnone : ∀ c ∈ ([] : List Char).head?, c = kind.separator ∧ c = other.separator :=
      fun c hc => absurd hc (by simp)
    have hfound := hlongest.fits.at?_apart fun c hc => (hnone c hc).1
    rw [hother.fits.at?_apart fun c hc => (hnone c hc).2,
      Token.apart_of_not_keyword (not_exists.mp hword),
      Token.apart_of_not_keyword (not_exists.mp hword)] at hfound
    cases hfound
    rfl

theorem at?_append_eq_some_iff :
    Token.at? (chars ++ rest) = some ⟨kind, chars⟩ ↔ Longest kind chars rest := by
  refine ⟨longest_of_at?, fun hlongest => ?_⟩
  obtain ⟨⟨other, piece⟩, htoken, hlength⟩ := hlongest.fits.reaches rest
  obtain ⟨after, hafter, hfound⟩ := found_of_at? htoken
  have hpiece : piece.length ≤ chars.length :=
    hlongest.longest hfound.fits ⟨after, hafter.symm⟩
  obtain ⟨rfl, rfl⟩ := List.append_inj hafter (Nat.le_antisymm hlength hpiece)
  rw [htoken, (longest_of_at? htoken).kind_unique hlongest]

/-- No token is found just where no piece of the text has one of the forms. -/
theorem at?_eq_none_iff {text : List Char} :
    Token.at? text = none ↔ ∀ {kind chars}, Fits kind chars → ¬ chars <+: text := by
  constructor
  · rintro hnone kind chars hfits ⟨rest, rfl⟩
    obtain ⟨token, htoken, _⟩ := hfits.reaches rest
    rw [hnone] at htoken
    cases htoken
  · intro hnone
    rw [Option.eq_none_iff_forall_ne_some]
    intro token htoken
    obtain ⟨rest, hrest, hfound⟩ := found_of_at? htoken
    exact hnone hfound.fits ⟨rest, hrest.symm⟩

end ClassLang.Code
