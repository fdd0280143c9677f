/-
# Tokens of instruction text

A token is the longest piece at the head of a text that has one of the forms
below. Names, keywords, variables and dotted labels all start with a name, so
what follows the name decides between them; every other form is settled by its
first character or two.
-/

import ClassLang.Code.Decimal

namespace ClassLang.Code

/-- Punctuation and operators. -/
inductive Symbol where
  | equal | notEqual | lessEqual | greaterEqual | andAnd | orOr
  | assign | semicolon | openBracket | closeBracket | openParen | closeParen
  | plus | minus | star | slash | percent | bang | ampersand | less | greater
  deriving DecidableEq, Repr

namespace Symbol

/-- All symbols. Those of two characters stand before those of one, so the first
one found at the head of a text is the longest. -/
def all : List Symbol :=
  [equal, notEqual, lessEqual, greaterEqual, andAnd, orOr,
    assign, semicolon, openBracket, closeBracket, openParen, closeParen,
    plus, minus, star, slash, percent, bang, ampersand, less, greater]

/-- The characters of a symbol. -/
def chars : Symbol → List Char
  | equal => ['=', '=']
  | notEqual => ['!', '=']
  | lessEqual => ['<', '=']
  | greaterEqual => ['>', '=']
  | andAnd => ['&', '&']
  | orOr => ['|', '|']
  | assign => ['=']
  | semicolon => [';']
  | openBracket => ['[']
  | closeBracket => [']']
  | openParen => ['(']
  | closeParen => [')']
  | plus => ['+']
  | minus => ['-']
  | star => ['*']
  | slash => ['/']
  | percent => ['%']
  | bang => ['!']
  | ampersand => ['&']
  | less => ['<']
  | greater => ['>']

/-- The longest symbol at the head of a text. -/
def at? (text : List Char) : Option Symbol :=
  all.find? fun symbol => symbol.chars.isPrefixOf text

theorem mem_all (symbol : Symbol) : symbol ∈ all := by
  cases symbol <;> decide

theorem chars_ne_nil (symbol : Symbol) : symbol.chars ≠ [] := by
  cases symbol <;> decide

end Symbol

/-- The form of a token. -/
inductive TokenKind where
  /-- The keyword `this`. -/
  | thisWord
  /-- The keyword `true`. -/
  | trueWord
  /-- The keyword `false`. -/
  | falseWord
  /-- The keyword `null`. -/
  | nullWord
  /-- An integer numeral, perhaps with a minus sign. -/
  | int
  /-- A string in double quotes. -/
  | str
  /-- A temporary such as `$t3` or `$o3`. -/
  | temp
  /-- A marked variable such as `x$l`, `x$p` or `x$f_Class`. -/
  | var
  /-- A plain name. -/
  | name
  /-- Two or more names joined by dots. -/
  | dotted
  | symbol (symbol : Symbol)
  /-- Everything from `//` to the end of the line. -/
  | comment
  deriving DecidableEq, Repr

/-- A token: its form and its characters. -/
structure Token where
  kind : TokenKind
  chars : List Char
  deriving DecidableEq, Repr

/-- The characters that separate tokens. -/
def isBlank (c : Char) : Bool :=
  c == ' ' || c == '\t' || c == '\x0c' || c == '\r' || c == '\n'

/-- Names start with a letter or an underscore. -/
def isNameStart (c : Char) : Bool :=
  c.isAlpha || c == '_'

/-- Names go on with letters, digits and underscores. -/
def isNamePart (c : Char) : Bool :=
  c.isAlphanum || c == '_'

/-- The name at the head of a text, empty if there is none. -/
def nameAt : List Char → List Char
  | [] => []
  | c :: rest => if isNameStart c then c :: rest.takeWhile isNamePart else []

/-- The groups of a dot and a name at the head of a text, as many as follow one
another. A dot without a name after it is left in the text. -/
def dotsAt : List Char → List Char
  | [] => []
  | c :: rest =>
    if c = '.' then
      match nameAt rest with
      | [] => []
      | name => c :: (name ++ dotsAt (rest.drop name.length))
    else []
termination_by text => text.length
decreasing_by
  simp only [List.length_drop, List.length_cons]
  omega

/-- The mark at the head of a text that makes a name before it a variable: `$l`,
`$p`, or `$f_` with a name. -/
def markAt : List Char → List Char
  | '$' :: 'l' :: _ => ['$', 'l']
  | '$' :: 'p' :: _ => ['$', 'p']
  | '$' :: 'f' :: '_' :: rest =>
    match nameAt rest with
    | [] => []
    | name => '$' :: 'f' :: '_' :: name
  | _ => []

/-- What is left of a string after its opening quote, up to and with the closing
quote. A backslash takes the next character with it, but not over a line end. -/
def stringTail : List Char → Option (List Char)
  | [] => none
  | c :: rest =>
    if c = '"' then some [c]
    else if c = '\\' then
      match rest with
      | [] => none
      | d :: rest => if d = '\n' then none else (stringTail rest).map fun tail => c :: d :: tail
    else (stringTail rest).map fun tail => c :: tail

/-- The kind of a name that stands for itself. -/
def wordKind (name : List Char) : TokenKind :=
  if name = ['t', 'h', 'i', 's'] then .thisWord
  else if name = ['t', 'r', 'u', 'e'] then .trueWord
  else if name = ['f', 'a', 'l', 's', 'e'] then .falseWord
  else if name = ['n', 'u', 'l', 'l'] then .nullWord
  else .name

/-- The token that begins with `name`, when `rest` follows it. A keyword directly
before a dot or a dollar sign is read as the beginning of a longer token, and is
a plain name if that token does not come about. -/
def wordToken (name rest : List Char) : Token :=
  match markAt rest, dotsAt rest with
  | [], [] =>
    match rest with
    | c :: _ => if c = '.' ∨ c = '$' then ⟨.name, name⟩ else ⟨wordKind name, name⟩
    | [] => ⟨wordKind name, name⟩
  | [], dots => ⟨.dotted, name ++ dots⟩
  | mark, _ => ⟨.var, name ++ mark⟩

/-- The symbol at the head of a text as a token. -/
def symbolToken? (text : List Char) : Option Token :=
  (Symbol.at? text).map fun symbol => ⟨.symbol symbol, symbol.chars⟩

/-- The longest token at the head of a text. -/
def Token.at? : List Char → Option Token
  | [] => none
  | c :: rest =>
    if isNameStart c then
      let name := nameAt (c :: rest)
      some (wordToken name ((c :: rest).drop name.length))
    else if c.isDigit then some ⟨.int, c :: Decimal.digitsAt rest⟩
    else if c = '-' ∧ Decimal.digitsAt rest ≠ [] then some ⟨.int, c :: Decimal.digitsAt rest⟩
    else if c = '"' then (stringTail rest).map fun tail => ⟨.str, c :: tail⟩
    else if c = '$' then
      match rest with
      | d :: rest =>
        if (d = 't' ∨ d = 'o') ∧ Decimal.digitsAt rest ≠ [] then
          some ⟨.temp, c :: d :: Decimal.digitsAt rest⟩
        else none
      | [] => none
    else if c = '/' ∧ rest.head? = some '/' then
      some ⟨.comment, c :: rest.takeWhile (· != '\n')⟩
    else symbolToken? (c :: rest)

theorem nameAt_ne_nil {c : Char} {rest : List Char} (hstart : isNameStart c = true) :
    nameAt (c :: rest) ≠ [] := by
  simp [nameAt, hstart]

theorem wordToken_chars_ne_nil {name : List Char} (rest : List Char) (hname : name ≠ []) :
    (wordToken name rest).chars ≠ [] := by
  unfold wordToken
  repeat' split
  all_goals simp_all

/-- A token takes at least one character. -/
theorem Token.chars_ne_nil_of_at? {text : List Char} {token : Token}
    (htoken : Token.at? text = some token) : token.chars ≠ [] := by
  cases text with
  | nil => simp [Token.at?] at htoken
  | cons c rest =>
    unfold Token.at? at htoken
    repeat' split at htoken
    all_goals try simp at htoken
    · subst htoken
      exact wordToken_chars_ne_nil _ (nameAt_ne_nil (by assumption))
    · simp [← htoken]
    · simp [← htoken]
    · obtain ⟨tail, _, rfl⟩ := htoken
      simp
    · simp [← htoken]
    · simp [← htoken]
    · simp only [symbolToken?, Option.map_eq_some_iff] at htoken
      obtain ⟨symbol, _, rfl⟩ := htoken
      exact symbol.chars_ne_nil

end ClassLang.Code
