/-
# Written instructions are read back

The written form of a legal operation falls into the tokens that its shape names,
whatever its operands are, and the reader recognises the same shape in them. So
writing and reading are inverse on every instruction that construction and edits
can lead to, except that a comment with a line end in it cannot come back: the
comment token ends there.
-/

import ClassLang.Code.Printer
import ClassLang.Code.Reader
import ClassLang.Proofs.Code.Legality
import ClassLang.Proofs.Code.Scanning

namespace ClassLang.Code

/-! ## Operands as tokens -/

/-- The form of the token that an operand is. -/
def operandForm (operand : String) : TokenKind :=
  ((Token.at? operand.toList).map Token.kind).getD .comment

/-- An operand as a token. -/
def operandToken (operand : String) : Token :=
  ⟨operandForm operand, operand.toList⟩

section Operand

variable {expected : OperandClass} {operand : String}

theorem operandForm_of_written {form : TokenKind} (hform : Written form operand.toList) :
    operandForm operand = form := by
  have hfound := at?_of_written hform delimits_nil
  rw [List.append_nil] at hfound
  simp [operandForm, hfound]

/-- What a place accepts is a token of a form that its class admits. -/
theorem exists_kind_of_accepts (haccepts : expected.accepts operand = true) :
    ∃ kind, expected.admits kind = true ∧ OperandKind.of? operand = some kind ∧
      Written (operandForm operand) operand.toList ∧
      OperandKind.ofToken? (operandToken operand) = some kind := by
  obtain ⟨kind, hkind, hadmits⟩ := (expected.accepts_iff operand).mp haccepts
  obtain ⟨form, hform, htoken⟩ := OperandKind.exists_written hkind
  have hoperand := operandForm_of_written hform
  refine ⟨kind, hadmits, hkind, by rwa [hoperand], ?_⟩
  rwa [operandToken, hoperand]

theorem written_of_accepts (haccepts : expected.accepts operand = true) :
    Written (operandForm operand) operand.toList := by
  obtain ⟨_, _, _, hform, _⟩ := exists_kind_of_accepts haccepts
  exact hform

theorem operandForm_ne_symbol (haccepts : expected.accepts operand = true) (symbol : Symbol) :
    operandForm operand ≠ .symbol symbol := by
  intro hform
  obtain ⟨kind, _, _, _, htoken⟩ := exists_kind_of_accepts haccepts
  simp [operandToken, hform, OperandKind.ofToken?] at htoken

/-- An operand does not have a form whose kinds its place refuses. -/
theorem operandForm_ne {form : TokenKind} (haccepts : expected.accepts operand = true)
    (hrefuses : ∀ chars kind, OperandKind.ofToken? ⟨form, chars⟩ = some kind →
      expected.admits kind = false) : operandForm operand ≠ form := by
  rintro rfl
  obtain ⟨kind, hadmits, _, _, htoken⟩ := exists_kind_of_accepts haccepts
  rw [hrefuses _ _ htoken] at hadmits
  cases hadmits

theorem operandForm_ne_name (haccepts : expected.accepts operand = true)
    (hexpected : expected.admits .label = false) : operandForm operand ≠ .name := by
  refine operandForm_ne haccepts fun chars kind htoken => ?_
  obtain rfl := Option.some.inj htoken
  exact hexpected

theorem operandForm_ne_str (haccepts : expected.accepts operand = true)
    (hexpected : expected.admits .str = false) : operandForm operand ≠ .str := by
  refine operandForm_ne haccepts fun chars kind htoken => ?_
  obtain rfl := Option.some.inj htoken
  exact hexpected

theorem operandForm_ne_int (haccepts : expected.accepts operand = true)
    (hexpected : ∀ n, expected.admits (.int n) = false) : operandForm operand ≠ .int := by
  refine operandForm_ne haccepts fun chars kind htoken => ?_
  obtain ⟨n, _, rfl⟩ := Option.map_eq_some_iff.mp htoken
  exact hexpected n

theorem isVariable_of_accepts (haccepts : OperandClass.var.accepts operand = true) :
    isVariable operand = true := by
  obtain ⟨kind, hadmits, hkind, _, _⟩ := exists_kind_of_accepts haccepts
  cases kind <;> simp_all [isVariable, OperandClass.admits]

theorem isVariable_eq_false (haccepts : expected.accepts operand = true)
    (hexpected : expected.admits .var = false) : isVariable operand = false := by
  obtain ⟨kind, hadmits, hkind, _, _⟩ := exists_kind_of_accepts haccepts
  have hne : kind ≠ .var := by
    rintro rfl
    rw [hexpected] at hadmits
    cases hadmits
  simp [isVariable, hkind, hne]

theorem isIntConstant_iff (haccepts : expected.accepts operand = true) :
    isIntConstant operand = true ↔ operandForm operand = .int := by
  obtain ⟨kind, _, hkind, _, htoken⟩ := exists_kind_of_accepts haccepts
  simp only [isIntConstant, hkind]
  constructor
  · intro hint
    cases hform : operandForm operand <;>
      simp_all [operandToken, OperandKind.ofToken?]
    all_goals subst kind; simp at hint
  · intro hform
    rw [operandToken, hform] at htoken
    obtain ⟨n, _, rfl⟩ := Option.map_eq_some_iff.mp htoken
    rfl

end Operand

/-! ## The tokens of an operation -/

/-- A plain name as a token. -/
def wordOf (text : String) : Token :=
  ⟨.name, text.toList⟩

/-- A block number as a token. -/
def BlockId.token (id : BlockId) : Token :=
  ⟨.name, id.chars⟩

/-- The tokens of a call itself. -/
def CallTarget.tokens : CallTarget → List Token
  | direct label => [wordOf "call", operandToken label]
  | indirect variableName => [wordOf "call", Symbol.star.token, operandToken variableName]

/-- The tokens of the operand of a negation. -/
def negatedTokens (operand : String) : List Token :=
  if isIntConstant operand then
    [Symbol.openParen.token, operandToken operand, Symbol.closeParen.token]
  else [operandToken operand]

/-- The tokens of an operation, without the final semicolon. -/
def Operation.tokens : Operation → List Token
  | branch op left right onTrue onFalse =>
    [wordOf "if", operandToken left, op.symbol.token, operandToken right, wordOf "goto",
      onTrue.token, wordOf "else", onFalse.token]
  | call target none => target.tokens
  | call target (some dest) => operandToken dest :: Symbol.assign.token :: target.tokens
  | ret none => [wordOf "return"]
  | ret (some value) => [wordOf "return", operandToken value]
  | param .standard value => [wordOf "param", operandToken value]
  | param .reference value => [wordOf "param", Symbol.ampersand.token, operandToken value]
  | param .error value => [wordOf "errparam", operandToken value]
  | load .address dest source =>
    [operandToken dest, Symbol.assign.token, Symbol.ampersand.token, operandToken source]
  | load _ dest source => [operandToken dest, Symbol.assign.token, operandToken source]
  | loadEntry dest base index =>
    [operandToken dest, Symbol.assign.token, operandToken base, Symbol.openBracket.token,
      operandToken index, Symbol.closeBracket.token]
  | storeEntry base index source =>
    [operandToken base, Symbol.openBracket.token, operandToken index,
      Symbol.closeBracket.token, Symbol.assign.token, operandToken source]
  | unary op dest operand =>
    operandToken dest :: Symbol.assign.token :: op.symbol.token :: negatedTokens operand
  | binary op dest left right =>
    [operandToken dest, Symbol.assign.token, operandToken left, op.symbol.token,
      operandToken right]

/-! ## Writing gives these tokens -/

theorem delimits_cons {c : Char} {rest : List Char}
    (hc : isNamePart c = false ∧ c ≠ '.' ∧ c ≠ '$') : Delimits (c :: rest) := by
  simpa [Delimits] using hc

theorem Symbol.growsBy_space (symbol : Symbol) : symbol.growsBy ' ' = false := by
  cases symbol <;> rfl

/-- What a name or a temporary starts with makes no symbol longer. -/
theorem Symbol.growsBy_eq_false {c : Char} (hc : isNameStart c = true ∨ c = '$')
    (symbol : Symbol) : symbol.growsBy c = false := by
  have hne : ∀ d, isNameStart d = false → d ≠ '$' → c ≠ d := by
    rintro d hstart hdollar rfl
    rcases hc with hc | hc
    · rw [hstart] at hc
      cases hc
    · exact hdollar hc
  have hdigit : c.isDigit = false := by
    cases hdigit : c.isDigit
    · rfl
    · refine absurd rfl (hne c (isNameStart_eq_false_of_isDigit hdigit) ?_)
      rintro rfl
      cases hdigit
  have hequal := (hne '=' rfl (by decide)).symm
  have hand := (hne '&' rfl (by decide)).symm
  have hslash := hne '/' rfl (by decide)
  cases symbol <;> simp [Symbol.growsBy, *]

namespace Scans

variable {rest : List Char} {tokens : List Token}

theorem word {word : List Char} (hname : isName word = true) (hplain : wordKind word = .name)
    (hdelimits : Delimits rest) (hrest : Scans rest tokens) :
    Scans (word ++ rest) (⟨.name, word⟩ :: tokens) := by
  have hform := Written.word hname
  rw [hplain] at hform
  exact .written hform hdelimits hrest

theorem spacedWord {word : List Char} (hname : isName word = true)
    (hplain : wordKind word = .name) (hrest : Scans rest tokens) :
    Scans (word ++ ' ' :: rest) (⟨.name, word⟩ :: tokens) :=
  .word hname hplain (delimits_cons (by decide)) hrest.space

theorem spacedSymbol (symbol : Symbol) (hrest : Scans rest tokens) :
    Scans (symbol.chars ++ ' ' :: rest) (symbol.token :: tokens) := by
  refine .symbol (fun c hc => ?_) hrest.space
  obtain rfl : ' ' = c := Option.some.inj hc
  exact symbol.growsBy_space

theorem operand {expected : OperandClass} {operand : String}
    (haccepts : expected.accepts operand = true) (hdelimits : Delimits rest)
    (hrest : Scans rest tokens) :
    Scans (operand.toList ++ rest) (operandToken operand :: tokens) :=
  .written (written_of_accepts haccepts) hdelimits hrest

theorem spacedOperand {expected : OperandClass} {operand : String}
    (haccepts : expected.accepts operand = true) (hrest : Scans rest tokens) :
    Scans (operand.toList ++ ' ' :: rest) (operandToken operand :: tokens) :=
  .operand haccepts (delimits_cons (by decide)) hrest.space

/-- A block number is a name, since its digits follow a letter. -/
theorem block (id : BlockId) (hdelimits : Delimits rest) (hrest : Scans rest tokens) :
    Scans (id.chars ++ rest) (id.token :: tokens) := by
  have hdigits : ∀ c ∈ Decimal.numeral id.toNat, isNamePart c = true := by
    intro c hc
    exact isNamePart_of_isDigit (Nat.isDigit_of_mem_toDigits (by decide) (by decide) hc)
  have hname : isName id.chars = true := by
    simpa [isName, BlockId.chars, isNameStart] using hdigits
  exact .word hname (by simp [wordKind, BlockId.chars]) hdelimits hrest

/-- A sign stands apart from a variable, a label or a boolean right after it. -/
theorem signed {expected : OperandClass} {operand : String} {sign : Symbol}
    (haccepts : expected.accepts operand = true) (hint : operandForm operand ≠ .int)
    (hstr : operandForm operand ≠ .str) (hdelimits : Delimits rest)
    (hrest : Scans rest tokens) :
    Scans (sign.chars ++ (operand.toList ++ rest))
      (sign.token :: operandToken operand :: tokens) := by
  refine .symbol (fun c hc => ?_) (.operand haccepts hdelimits hrest)
  obtain ⟨first, tail, hchars, hfirst⟩ := (written_of_accepts haccepts).head_of_ne hint hstr
  rw [hchars] at hc
  obtain rfl : first = c := Option.some.inj hc
  exact sign.growsBy_eq_false hfirst

theorem negated {op : Negation} {operand : String}
    (haccepts : op.operandClass.accepts operand = true) (hdelimits : Delimits rest)
    (hrest : Scans rest tokens) :
    Scans (op.symbol.chars ++ ((negatedText operand).toList ++ rest))
      (op.symbol.token :: (negatedTokens operand ++ tokens)) := by
  by_cases hint : isIntConstant operand = true
  · simp only [negatedText, negatedTokens, hint, if_true, String.toList_append,
      String.reduceToList, List.append_assoc, List.cons_append, List.nil_append]
    refine .symbol (fun c hc => ?_) ?_
    · obtain rfl : '(' = c := Option.some.inj hc
      cases op <;> rfl
    refine @symbol _ _ .openParen (fun _ _ => rfl) ?_
    refine .operand haccepts (delimits_cons (by decide)) ?_
    exact @symbol _ _ .closeParen (fun _ _ => rfl) hrest
  · simp only [negatedText, negatedTokens, hint, Bool.false_eq_true, if_false, List.cons_append,
      List.nil_append]
    refine .signed haccepts ?_ ?_ hdelimits hrest
    · exact fun hform => hint ((isIntConstant_iff haccepts).mpr hform)
    · exact operandForm_ne_str haccepts (by cases op <;> rfl)

theorem target {target : CallTarget} (hmet : (Operation.targetDemand target).met = true)
    (hdelimits : Delimits rest) (hrest : Scans rest tokens) :
    Scans ('c' :: 'a' :: 'l' :: 'l' :: ' ' :: (target.text.toList ++ rest))
      (target.tokens ++ tokens) := by
  cases target with
  | direct label =>
      simp only [CallTarget.tokens, wordOf, String.reduceToList]
      exact @spacedWord _ _ ['c', 'a', 'l', 'l'] rfl rfl (.operand hmet hdelimits hrest)
  | indirect variableName =>
      simp only [CallTarget.text, CallTarget.tokens, wordOf, String.toList_append,
        String.reduceToList, List.append_assoc]
      refine @spacedWord _ _ ['c', 'a', 'l', 'l'] rfl rfl ?_
      exact @symbol _ _ .star (fun _ _ => rfl) (.operand hmet hdelimits hrest)

end Scans

/-- The written form of a legal operation falls into its tokens and a semicolon. -/
theorem scans_operation {operation : Operation} (hlegal : operation.Legal) {rest : List Char}
    {tokens : List Token} (hrest : Scans rest tokens) :
    Scans (operation.text.toList ++ rest)
      (operation.tokens ++ Symbol.semicolon.token :: tokens) := by
  have hend : Scans (';' :: rest) (Symbol.semicolon.token :: tokens) :=
    @Scans.symbol rest tokens .semicolon (fun _ _ => rfl) hrest
  have hlast : Delimits (';' :: rest) := delimits_cons (by decide)
  -- one case per written shape, each with its demands and its text as characters; `delta`, as
  -- the equations of `text` compare strings byte by byte
  rcases operation with ⟨op, left, right, onTrue, onFalse⟩ | ⟨target, _ | dest⟩ | (_ | value) |
    ⟨_ | _ | _, value⟩ | ⟨_ | _ | _, dest, source⟩ | ⟨dest, base, index⟩ |
    ⟨base, index, source⟩ | ⟨op, dest, operand⟩ | ⟨op, dest, left, right⟩ <;>
    delta Operation.text <;>
    simp only [Operation.Legal, Operation.demands, Option.toList_none, Option.toList_some,
      List.map_nil, List.map_cons, List.forall_mem_cons, Symbol.text, BlockId.text,
      resultText, Operation.tokens, wordOf, String.toList_append, String.reduceToList,
      String.toList_ofList, List.append_assoc, List.cons_append, List.nil_append] at hlegal ⊢
  case branch =>
      refine @Scans.spacedWord _ _ ['i', 'f'] rfl rfl ?_
      refine .spacedOperand hlegal.1 (.spacedSymbol op.symbol (.spacedOperand hlegal.2.1 ?_))
      refine @Scans.spacedWord _ _ ['g', 'o', 't', 'o'] rfl rfl ?_
      refine .block onTrue (delimits_cons (by decide)) (.space ?_)
      refine @Scans.spacedWord _ _ ['e', 'l', 's', 'e'] rfl rfl ?_
      exact .block onFalse hlast hend
  case call.none => exact .target hlegal.1 hlast hend
  case call.some =>
      refine .spacedOperand hlegal.2.1 (.spacedSymbol .assign ?_)
      exact .target hlegal.1 hlast hend
  case ret.none => exact @Scans.word _ _ ['r', 'e', 't', 'u', 'r', 'n'] rfl rfl hlast hend
  case ret.some =>
      refine @Scans.spacedWord _ _ ['r', 'e', 't', 'u', 'r', 'n'] rfl rfl ?_
      exact .operand hlegal.1 hlast hend
  case param.standard =>
      refine @Scans.spacedWord _ _ ['p', 'a', 'r', 'a', 'm'] rfl rfl ?_
      exact .operand hlegal.1 hlast hend
  case param.reference =>
      refine @Scans.spacedWord _ _ ['p', 'a', 'r', 'a', 'm'] rfl rfl ?_
      exact @Scans.signed _ _ .var value .ampersand hlegal.1
        (operandForm_ne_int hlegal.1 fun _ => rfl) (operandForm_ne_str hlegal.1 rfl) hlast hend
  case param.error =>
      refine @Scans.spacedWord _ _ ['e', 'r', 'r', 'p', 'a', 'r', 'a', 'm'] rfl rfl ?_
      exact .operand hlegal.1 hlast hend
  case load.var =>
      refine .spacedOperand hlegal.1 (.spacedSymbol .assign ?_)
      exact .operand hlegal.2.1 hlast hend
  case load.constant =>
      refine .spacedOperand hlegal.1 (.spacedSymbol .assign ?_)
      exact .operand hlegal.2.1 hlast hend
  case load.address =>
      refine .spacedOperand hlegal.1 (.spacedSymbol .assign ?_)
      exact @Scans.signed _ _ .label source .ampersand hlegal.2.1
        (operandForm_ne_int hlegal.2.1 fun _ => rfl) (operandForm_ne_str hlegal.2.1 rfl) hlast hend
  case loadEntry =>
      refine .spacedOperand hlegal.1 (.spacedSymbol .assign ?_)
      refine .operand hlegal.2.1 (delimits_cons (by decide)) ?_
      refine @Scans.symbol _ _ .openBracket (fun _ _ => rfl) ?_
      refine .operand hlegal.2.2.1 (delimits_cons (by decide)) ?_
      exact @Scans.symbol _ _ .closeBracket (fun _ _ => rfl) hend
  case storeEntry =>
      refine .operand hlegal.1 (delimits_cons (by decide)) ?_
      refine @Scans.symbol _ _ .openBracket (fun _ _ => rfl) ?_
      refine .operand hlegal.2.1 (delimits_cons (by decide)) ?_
      refine @Scans.symbol _ _ .closeBracket (fun _ _ => rfl) (.space (.spacedSymbol .assign ?_))
      exact .operand hlegal.2.2.1 hlast hend
  case unary =>
      refine .spacedOperand hlegal.1 (.spacedSymbol .assign ?_)
      exact .negated hlegal.2.1 hlast hend
  case binary =>
      refine .spacedOperand hlegal.1 (.spacedSymbol .assign ?_)
      refine .spacedOperand hlegal.2.1 (.spacedSymbol op.symbol ?_)
      exact .operand hlegal.2.2.1 hlast hend

/-! ## The reader recognises them -/

namespace Lexeme

variable {lexeme : Lexeme}

theorem token_eq_wordOf {word : String} :
    lexeme.token = wordOf word ↔ lexeme.kind = .name ∧ lexeme.text = word :=
  token_eq_iff

theorem token_eq_operandToken {operand : String} :
    lexeme.token = operandToken operand ↔
      lexeme.kind = operandForm operand ∧ lexeme.text = operand :=
  token_eq_iff

theorem token_eq_symbol {symbol : Symbol} :
    lexeme.token = symbol.token ↔ lexeme.kind = .symbol symbol ∧ lexeme.text = symbol.text := by
  rw [← token_eq_iff, Symbol.text, String.toList_ofList, Symbol.token]

theorem token_eq_block {id : BlockId} :
    lexeme.token = id.token ↔ lexeme.kind = .name ∧ lexeme.text = id.text := by
  rw [← token_eq_iff, BlockId.text, String.toList_ofList, BlockId.token]

end Lexeme

/-- The first shape that recognises something decides. -/
theorem readOperation_eq (lexemes : List Lexeme) :
    readOperation lexemes =
      ((readBranch? lexemes).or <| (readReturn? lexemes).or <| (readParam? lexemes).or <|
        (readCall? lexemes).or <| (readKeptCall? lexemes).or <| (readAddress? lexemes).or <|
        (readNegation? lexemes).or <| ( readLoadEntry? lexemes).or <|
        ( readStoreEntry? lexemes).or <| (readArithmetic? lexemes).or <|
        readCopy? lexemes).getD (.error .unknownShape) := by
  have hcons (shape : List Lexeme → Option Reading) (rest : List (List Lexeme → Option Reading)) :
      (shape :: rest).findSome? (fun shape => shape lexemes) =
        (shape lexemes).or (rest.findSome? fun shape => shape lexemes) := by
    rw [List.findSome?_cons]
    cases shape lexemes <;> rfl
  simp only [readOperation, shapes, hcons, List.findSome?_nil, Option.or_none]

section Shapes

variable {first : Lexeme} {rest lexemes : List Lexeme}

theorem readBranch?_cons (hfirst : first.isWord "if" = false) :
    readBranch? (first :: rest) = none := by
  unfold readBranch?
  split <;> simp_all

theorem readReturn?_cons (hfirst : first.isWord "return" = false) :
    readReturn? (first :: rest) = none := by
  unfold readReturn?
  split <;> simp_all

theorem readParam?_cons (hparam : first.isWord "param" = false)
    (herror : first.isWord "errparam" = false) : readParam? (first :: rest) = none := by
  unfold readParam?
  split <;> simp_all

theorem readTarget?_cons (hfirst : first.isWord "call" = false) :
    readTarget? (first :: rest) = none := by
  unfold readTarget?
  split <;> simp_all

/-- Lexemes that start with an operand are not read as a statement with a keyword. -/
theorem readOperation_of_ne_name (hfirst : first.kind ≠ .name) :
    readOperation (first :: rest) =
      ((readKeptCall? (first :: rest)).or <| (readAddress? (first :: rest)).or <|
        (readNegation? (first :: rest)).or <| ( readLoadEntry? (first :: rest)).or <|
        ( readStoreEntry? (first :: rest)).or <| (readArithmetic? (first :: rest)).or <|
        readCopy? (first :: rest)).getD (.error .unknownShape) := by
  have hword (word : String) : first.isWord word = false := by simp [Lexeme.isWord, hfirst]
  rw [readOperation_eq, readBranch?_cons (hword _), readReturn?_cons (hword _),
    readParam?_cons (hword _) (hword _), readCall?, readTarget?_cons (hword _)]
  rfl

theorem readTarget?_of_tokens {target : CallTarget}
    (hlexemes : lexemes.map Lexeme.token = target.tokens) :
    readTarget? lexemes = some target := by
  cases target with
  | direct label =>
      simp only [CallTarget.tokens, List.map_eq_cons_iff, List.map_eq_nil_iff,
        Lexeme.token_eq_wordOf, Lexeme.token_eq_operandToken] at hlexemes
      obtain ⟨word, _, rfl, hword, v, _, rfl, hv, rfl⟩ := hlexemes
      simp [readTarget?, Lexeme.isWord, hword, hv]
  | indirect variableName =>
      simp only [CallTarget.tokens, List.map_eq_cons_iff, List.map_eq_nil_iff,
        Lexeme.token_eq_wordOf, Lexeme.token_eq_operandToken, Lexeme.token_eq_symbol] at hlexemes
      obtain ⟨word, _, rfl, hword, sign, _, rfl, hsign, v, _, rfl, hv, rfl⟩ := hlexemes
      simp [readTarget?, Lexeme.isWord, Lexeme.isSymbol, hword, hsign, hv]

/-- A call whose result is dropped is read as no other statement with a keyword. -/
theorem readOperation_droppedCall {target : CallTarget}
    (hlexemes : lexemes.map Lexeme.token = target.tokens) :
    readOperation lexemes = .ok (.call target none) := by
  have htarget := readTarget?_of_tokens hlexemes
  cases lexemes with
  | nil => simp [readTarget?] at htarget
  | cons word rest =>
      have hcall : word.isWord "call" = true := by
        by_contra hother
        simp [readTarget?_cons (Bool.eq_false_iff.mpr hother)] at htarget
      have hother {other : String} (hne : "call" ≠ other) : word.isWord other = false := by
        simp_all [Lexeme.isWord]
      rw [readOperation_eq, readBranch?_cons (hother (by decide)),
        readReturn?_cons (hother (by decide)),
        readParam?_cons (hother (by decide)) (hother (by decide)), readCall?, htarget]
      rfl

theorem readOperation_keptCall {sign : Lexeme} {target : CallTarget} (hfirst : first.kind ≠ .name)
    (hsign : sign.kind = .symbol .assign) (hrest : rest.map Lexeme.token = target.tokens) :
    readOperation (first :: sign :: rest) = .ok (.call target (some first.text)) := by
  rw [readOperation_of_ne_name hfirst, readKeptCall?, readTarget?_of_tokens hrest]
  simp [Lexeme.isSymbol, hsign]

/-- A negation is read whether its operand stands in parentheses, as numbers do, or not. -/
theorem readOperation_negation {sign mark : Lexeme} {op : Negation} {operand : String}
    (haccepts : op.operandClass.accepts operand = true) (hfirst : first.kind ≠ .name)
    (hsign : sign.kind = .symbol .assign) (hmark : mark.kind = .symbol op.symbol)
    (hrest : rest.map Lexeme.token = negatedTokens operand) :
    readOperation (first :: sign :: mark :: rest) = .ok (.unary op first.text operand) := by
  rw [readOperation_of_ne_name hfirst]
  by_cases hint : isIntConstant operand = true
  · have hform := (isIntConstant_iff haccepts).mp hint
    simp only [negatedTokens, hint, if_true, List.map_eq_cons_iff, List.map_eq_nil_iff,
      Lexeme.token_eq_operandToken, Lexeme.token_eq_symbol] at hrest
    obtain ⟨opening, _, rfl, hopening, v, _, rfl, hv, closing, _, rfl, hclosing, rfl⟩ := hrest
    cases op with
    | minus =>
        simp [readKeptCall?, readTarget?, readAddress?, readNegation?, Lexeme.isSymbol,
          Negation.symbol, hsign, hmark, hopening, hv, hclosing, hform]
    | not => exact absurd hform (operandForm_ne_int haccepts fun _ => rfl)
  · simp only [negatedTokens, hint, Bool.false_eq_true, if_false, List.map_eq_cons_iff,
      List.map_eq_nil_iff, Lexeme.token_eq_operandToken] at hrest
    obtain ⟨v, _, rfl, hv, rfl⟩ := hrest
    cases op <;>
      simp [readKeptCall?, readTarget?, readAddress?, readNegation?, Lexeme.isWord,
        Lexeme.isSymbol, Negation.symbol, hsign, hmark, hv]

theorem readOperation_of_tokens {operation : Operation} (hlegal : operation.Legal)
    (hlexemes : lexemes.map Lexeme.token = operation.tokens) :
    readOperation lexemes = .ok operation := by
  rcases operation with ⟨op, left, right, onTrue, onFalse⟩ | ⟨target, _ | dest⟩ | (_ | value) |
    ⟨_ | _ | _, value⟩ | ⟨_ | _ | _, dest, source⟩ | ⟨dest, base, index⟩ |
    ⟨base, index, source⟩ | ⟨op, dest, operand⟩ | ⟨op, dest, left, right⟩ <;>
    simp only [Operation.Legal, Operation.demands, Option.toList_none, Option.toList_some,
      List.map_nil, List.map_cons, List.forall_mem_cons, Operation.tokens,
      List.map_eq_cons_iff, List.map_eq_nil_iff, Lexeme.token_eq_wordOf,
      Lexeme.token_eq_operandToken, Lexeme.token_eq_symbol, Lexeme.token_eq_block]
      at hlegal hlexemes
  case branch =>
      obtain ⟨word, _, rfl, hword, l, _, rfl, hl, sign, _, rfl, hsign, r, _, rfl, hr, goWord, _,
        rfl, hgo, t, _, rfl, ht, elseWord, _, rfl, helse, f, _, rfl, hf, rfl⟩ := hlexemes
      simp [readOperation_eq, readBranch?, Lexeme.isWord, Lexeme.comparison, Lexeme.block,
        hword, hl, hsign, hr, hgo, ht, helse, hf, Comparison.ofSymbol?_symbol,
        BlockId.ofText?_text]
      rfl
  case call.none => exact readOperation_droppedCall hlexemes
  case call.some =>
      obtain ⟨d, _, rfl, hd, sign, rest, rfl, hsign, hrest⟩ := hlexemes
      rw [readOperation_keptCall (hd.1 ▸ operandForm_ne_name hlegal.2.1 rfl) hsign.1 hrest, hd.2]
  case ret.none =>
      obtain ⟨word, _, rfl, hword, rfl⟩ := hlexemes
      simp [readOperation_eq, readBranch?, readReturn?, Lexeme.isWord, hword]
  case ret.some =>
      obtain ⟨word, _, rfl, hword, v, _, rfl, hv, rfl⟩ := hlexemes
      simp [readOperation_eq, readBranch?, readReturn?, Lexeme.isWord, hword, hv]
  case param.standard =>
      obtain ⟨word, _, rfl, hword, v, _, rfl, hv, rfl⟩ := hlexemes
      simp [readOperation_eq, readBranch?, readReturn?, readParam?, Lexeme.isWord, hword, hv]
  case param.reference =>
      obtain ⟨word, _, rfl, hword, sign, _, rfl, hsign, v, _, rfl, hv, rfl⟩ := hlexemes
      simp [readOperation_eq, readBranch?, readReturn?, readParam?, Lexeme.isWord,
        Lexeme.isSymbol, hword, hsign, hv]
  case param.error =>
      obtain ⟨word, _, rfl, hword, v, _, rfl, hv, rfl⟩ := hlexemes
      simp [readOperation_eq, readBranch?, readReturn?, readParam?, Lexeme.isWord, hword, hv]
  case load.var =>
      obtain ⟨d, _, rfl, hd, sign, _, rfl, hsign, v, _, rfl, hv, rfl⟩ := hlexemes
      rw [readOperation_of_ne_name (hd.1 ▸ operandForm_ne_name hlegal.1 rfl)]
      simp [readKeptCall?, readTarget?, readAddress?, readNegation?, readLoadEntry?,
        readStoreEntry?, readArithmetic?, readCopy?, Lexeme.isSymbol, hd, hsign, hv,
        isVariable_of_accepts hlegal.2.1]
  case load.constant =>
      obtain ⟨d, _, rfl, hd, sign, _, rfl, hsign, v, _, rfl, hv, rfl⟩ := hlexemes
      rw [readOperation_of_ne_name (hd.1 ▸ operandForm_ne_name hlegal.1 rfl)]
      simp [readKeptCall?, readTarget?, readAddress?, readNegation?, readLoadEntry?,
        readStoreEntry?, readArithmetic?, readCopy?, Lexeme.isSymbol, hd, hsign, hv,
        isVariable_eq_false hlegal.2.1 rfl]
  case load.address =>
      obtain ⟨d, _, rfl, hd, sign, _, rfl, hsign, mark, _, rfl, hmark, v, _, rfl, hv, rfl⟩ :=
        hlexemes
      rw [readOperation_of_ne_name (hd.1 ▸ operandForm_ne_name hlegal.1 rfl)]
      simp [readKeptCall?, readTarget?, readAddress?, Lexeme.isWord, Lexeme.isSymbol, hd, hsign,
        hmark, hv]
  case loadEntry =>
      obtain ⟨d, _, rfl, hd, sign, _, rfl, hsign, b, _, rfl, hb, opening, _, rfl, hopening, i, _,
        rfl, hi, closing, _, rfl, hclosing, rfl⟩ := hlexemes
      have hbase := operandForm_ne_symbol hlegal.2.1 .minus
      rw [readOperation_of_ne_name (hd.1 ▸ operandForm_ne_name hlegal.1 rfl)]
      simp_all [readKeptCall?, readTarget?, readAddress?, readNegation?, readLoadEntry?,
        Lexeme.isSymbol]
  case storeEntry =>
      obtain ⟨b, _, rfl, hb, opening, _, rfl, hopening, i, _, rfl, hi, closing, _, rfl, hclosing,
        sign, _, rfl, hsign, v, _, rfl, hv, rfl⟩ := hlexemes
      rw [readOperation_of_ne_name (hb.1 ▸ operandForm_ne_name hlegal.1 rfl)]
      simp [readKeptCall?, readAddress?, readNegation?, readLoadEntry?, readStoreEntry?,
        Lexeme.isSymbol, hb, hopening, hi, hclosing, hsign, hv]
  case unary =>
      obtain ⟨d, _, rfl, hd, sign, _, rfl, hsign, mark, rest, rfl, hmark, hrest⟩ := hlexemes
      rw [readOperation_negation hlegal.2.1 (hd.1 ▸ operandForm_ne_name hlegal.1 rfl) hsign.1
        hmark.1 hrest, hd.2]
  case binary =>
      obtain ⟨d, _, rfl, hd, sign, _, rfl, hsign, l, _, rfl, hl, operator, _, rfl, hoperator, r, _,
        rfl, hr, rfl⟩ := hlexemes
      have hleft : operandForm left ≠ .name := operandForm_ne_name hlegal.2.1 (by cases op <;> rfl)
      rw [readOperation_of_ne_name (hd.1 ▸ operandForm_ne_name hlegal.1 rfl)]
      simp [readKeptCall?, readTarget?, readAddress?, readNegation?, readLoadEntry?,
        readStoreEntry?, readArithmetic?, Lexeme.arithmetic, Lexeme.isWord, Lexeme.isSymbol, hd,
        hsign, hl, hoperator, hr, hleft, Arithmetic.ofSymbol?_symbol]

end Shapes

/-! ## Comments -/

/-- A comment as a token. -/
def commentToken (comment : String) : Token :=
  ⟨.comment, '/' :: '/' :: ' ' :: comment.toList⟩

theorem Scans.comment {comment : String} {rest : List Char} {tokens : List Token}
    (hcomment : '\n' ∉ comment.toList) (hline : ∀ c ∈ rest.head?, c = '\n')
    (hrest : Scans rest tokens) :
    Scans ('/' :: '/' :: ' ' :: (comment.toList ++ rest)) (commentToken comment :: tokens) := by
  have hbody : '\n' ∉ ' ' :: comment.toList := by simpa using hcomment
  exact @Scans.token (commentToken comment) rest tokens (at?_comment_append hbody hline) hrest

theorem commentsText_cons_cons (comment next : String) (comments : List String) :
    (commentsText (comment :: next :: comments)).toList =
      ' ' :: ' ' :: '/' :: '/' :: ' ' ::
        (comment.toList ++ '\n' :: (commentsText (next :: comments)).toList) := by
  simp only [commentsText, List.map_cons, String.intercalate_cons_cons, String.toList_append,
    String.reduceToList, List.append_assoc, List.cons_append, List.nil_append]

/-- Comments without line ends fall into one token each. -/
theorem scans_comments {comments : List String}
    (hcomments : ∀ comment ∈ comments, '\n' ∉ comment.toList) :
    Scans (commentsText comments).toList (comments.map commentToken) := by
  induction comments with
  | nil => exact .nil
  | cons comment comments ih =>
      rw [List.forall_mem_cons] at hcomments
      have hrest := ih hcomments.2
      cases comments with
      | nil =>
          have hone := @Scans.comment comment [] [] hcomments.1 (by simp) .nil
          rw [List.append_nil] at hone
          simpa [commentsText] using hone.space.space
      | cons next comments =>
          rw [commentsText_cons_cons]
          exact .space (.space (.comment hcomments.1 (by simp) (.blank rfl hrest)))

theorem commentBody_of_token {lexeme : Lexeme} {comment : String}
    (htoken : lexeme.token = commentToken comment) : lexeme.commentBody = comment := by
  have htext : lexeme.text.toList = '/' :: '/' :: ' ' :: comment.toList :=
    congrArg Token.chars htoken
  simp [Lexeme.commentBody, htext]

/-- A comment and the token that it is read from: two slashes, then a blank that does not
count, if there is one. -/
inductive SpellsComment : String → Token → Prop
  | spaced (comment : String) : SpellsComment comment (commentToken comment)
  | tight {comment : String} (hhead : comment.toList.head? ≠ some ' ') :
      SpellsComment comment ⟨.comment, '/' :: '/' :: comment.toList⟩

theorem Lexeme.commentBody_of_spellsComment {lexeme : Lexeme} {comment : String}
    (hspells : SpellsComment comment lexeme.token) :
    lexeme.commentBody = comment ∧ lexeme.isComment = true := by
  generalize htoken : lexeme.token = token at hspells
  have hkind : lexeme.kind = token.kind := congrArg Token.kind htoken
  cases hspells with
  | spaced => exact ⟨commentBody_of_token htoken, beq_iff_eq.mpr hkind⟩
  | tight hhead =>
      have htext : lexeme.text.toList.drop 2 = comment.toList := by
        rw [show lexeme.text.toList = _ from congrArg Token.chars htoken]
        rfl
      refine ⟨?_, beq_iff_eq.mpr hkind⟩
      rw [Lexeme.commentBody, htext]
      split
      next hcomment =>
        rw [hcomment] at hhead
        exact absurd rfl hhead
      next => exact String.ofList_toList

theorem comments_of_spellsComment {comments : List String} {lexemes : List Lexeme}
    (hspells : List.Forall₂ SpellsComment comments (lexemes.map Lexeme.token)) :
    lexemes.map Lexeme.commentBody = comments ∧ lexemes.all Lexeme.isComment = true := by
  rw [List.forall₂_map_right_iff] at hspells
  induction hspells with
  | nil => exact ⟨rfl, rfl⟩
  | cons hcomment _ ih =>
      obtain ⟨hbody, hkind⟩ := Lexeme.commentBody_of_spellsComment hcomment
      rw [List.map_cons, List.all_cons, hbody, hkind, ih.1, ih.2]
      exact ⟨rfl, rfl⟩

theorem mem_text_of_mem_commentBody {lexeme : Lexeme} {c : Char}
    (hc : c ∈ lexeme.commentBody.toList) : c ∈ lexeme.text.toList := by
  apply List.mem_of_mem_drop (i := 2)
  unfold Lexeme.commentBody at hc
  split at hc
  next body hdrop =>
    rw [hdrop]
    exact List.mem_cons_of_mem _ (by simpa using hc)
  next => simpa using hc

theorem exists_ok_of_bind {ε α β : Type} {first : Except ε α} {next : α → Except ε β} {result : β}
    (hbind : (first >>= next) = .ok result) :
    ∃ value, first = .ok value ∧ next value = .ok result := by
  cases first with
  | error => cases hbind
  | ok value => exact ⟨value, rfl, hbind⟩

theorem exists_semicolon_of_dropSemicolon {lexemes code : List Lexeme}
    (hcode : dropSemicolon lexemes = .ok code) :
    ∃ semicolon : Lexeme, semicolon.isSymbol .semicolon = true ∧ lexemes = code ++ [semicolon] := by
  unfold dropSemicolon at hcode
  split at hcode
  next last hlast =>
    split at hcode
    next hsemicolon =>
      obtain rfl := Except.ok.inj hcode
      exact ⟨last, hsemicolon, (List.dropLast_append_getLast? last hlast).symm⟩
    next => cases hcode
  next => cases hcode

/-- The parts of a text that is scanned to its end: code, a semicolon, and comments. -/
structure Parts (text : String) (code : List Lexeme) (semicolon : Lexeme)
    (comments : List Lexeme) : Prop where
  scanned : (Scan.ofText text).failedAt = none
  lexemes_eq : (Scan.ofText text).lexemes = code ++ semicolon :: comments
  code : ∀ lexeme ∈ code, lexeme.isComment = false
  semicolon : semicolon.isSymbol .semicolon = true
  comments : comments.all Lexeme.isComment = true

/-- What a text with these parts is read as. -/
theorem Parts.readText_eq {text : String} {code comments : List Lexeme} {semicolon : Lexeme}
    (hparts : Parts text code semicolon comments) :
    readText text = do
      let operation ← readOperation code
      return ⟨operation, comments.map Lexeme.commentBody⟩ := by
  have hcode : ∀ lexeme ∈ code ++ [semicolon], (!lexeme.isComment) = true := by
    intro lexeme hlexeme
    rcases List.mem_append.mp hlexeme with hmem | hmem
    · rw [hparts.code lexeme hmem]
      rfl
    · have hkind : semicolon.kind = .symbol .semicolon := beq_iff_eq.mp hparts.semicolon
      rw [List.mem_singleton.mp hmem, Lexeme.isComment, hkind]
      rfl
  have hlexemes : (Scan.ofText text).lexemes = (code ++ [semicolon]) ++ comments := by
    rw [hparts.lexemes_eq, List.append_assoc, List.singleton_append]
  have htake : ((code ++ [semicolon]) ++ comments).takeWhile (fun lexeme => !lexeme.isComment) =
      code ++ [semicolon] := by
    apply takeWhile_run_append hcode
    intro lexeme hlexeme
    simp [List.all_eq_true.mp hparts.comments lexeme (List.mem_of_mem_head? hlexeme)]
  have hdrop : ((code ++ [semicolon]) ++ comments).dropWhile (fun lexeme => !lexeme.isComment) =
      comments := by
    have hboth := @List.takeWhile_append_dropWhile _ (fun lexeme => !lexeme.isComment)
      ((code ++ [semicolon]) ++ comments)
    rw [htake] at hboth
    exact List.append_cancel_left hboth
  have hsemicolon : dropSemicolon (code ++ [semicolon]) = .ok code := by
    simp [dropSemicolon, hparts.semicolon]
  simp only [readText, hparts.scanned, hlexemes, htake, hdrop, hparts.comments, if_true,
    hsemicolon]
  rfl

/-- A text that is read has these parts. -/
theorem exists_parts_of_readText {text : String} {instruction : Instruction}
    (hread : readText text = .ok instruction) :
    ∃ code semicolon comments, Parts text code semicolon comments ∧
      readOperation code = .ok instruction.operation ∧
      comments.map Lexeme.commentBody = instruction.comments := by
  simp only [readText] at hread
  split at hread
  next => cases hread
  next hscanned =>
    split at hread
    next hcomments =>
      obtain ⟨code, hcode, hread⟩ := exists_ok_of_bind hread
      obtain ⟨operation, hoperation, hread⟩ := exists_ok_of_bind hread
      cases hread
      obtain ⟨semicolon, hsemicolon, hsplit⟩ := exists_semicolon_of_dropSemicolon hcode
      have hlexemes := @List.takeWhile_append_dropWhile _
        (fun lexeme : Lexeme => !lexeme.isComment) (Scan.ofText text).lexemes
      rw [hsplit, List.append_assoc, List.singleton_append] at hlexemes
      refine ⟨code, semicolon, _, ⟨hscanned, hlexemes.symm, ?_, hsemicolon, hcomments⟩,
        hoperation, rfl⟩
      intro lexeme hlexeme
      have hmem := List.mem_append_left [semicolon] hlexeme
      rw [← hsplit] at hmem
      simpa using List.mem_takeWhile_imp hmem
    next => cases hread

/-- A comment that is read never has a line end in it. -/
theorem newline_notMem_of_readText {text : String} {instruction : Instruction}
    (hread : readText text = .ok instruction) :
    ∀ comment ∈ instruction.comments, '\n' ∉ comment.toList := by
  obtain ⟨code, semicolon, comments, hparts, _, hcomments⟩ := exists_parts_of_readText hread
  intro comment hcomment hnewline
  rw [← hcomments] at hcomment
  obtain ⟨lexeme, hlexeme, rfl⟩ := List.mem_map.mp hcomment
  have hkind : lexeme.kind = .comment :=
    beq_iff_eq.mp (List.all_eq_true.mp hparts.comments lexeme hlexeme)
  have hmem : lexeme ∈ (Scan.ofText text).lexemes := by
    rw [hparts.lexemes_eq]
    exact List.mem_append_right _ (List.mem_cons_of_mem _ hlexeme)
  exact newline_notMem_of_mem_lexemes hmem hkind (mem_text_of_mem_commentBody hnewline)

/-! ## Instructions -/

theorem kind_ne_of_mem_tokens {operation : Operation} (hlegal : operation.Legal) :
    ∀ token ∈ operation.tokens, token.kind ≠ .comment ∧ token.kind ≠ .symbol .semicolon := by
  have hoperands : ∀ demand ∈ operation.demands,
      operandForm demand.operand ≠ .comment ∧ operandForm demand.operand ≠ .symbol .semicolon := by
    intro demand hdemand
    refine ⟨operandForm_ne (hlegal demand hdemand) fun chars kind htoken => ?_,
      operandForm_ne_symbol (hlegal demand hdemand) .semicolon⟩
    cases htoken
  rcases operation with ⟨_ | _ | _ | _ | _ | _, left, right, onTrue, onFalse⟩ |
    ⟨label | callee, _ | dest⟩ | (_ | value) | ⟨_ | _ | _, value⟩ | ⟨_ | _ | _, dest, source⟩ |
    ⟨dest, base, index⟩ | ⟨base, index, source⟩ | ⟨_ | _, dest, operand⟩ |
    ⟨_ | _ | _ | _ | _ | _ | _, dest, left, right⟩ <;>
    simp_all [Operation.tokens, CallTarget.tokens, Operation.demands, Operation.targetDemand,
      wordOf, operandToken, Symbol.token, BlockId.token, Comparison.symbol, Arithmetic.symbol,
      Negation.symbol]
  all_goals
    by_cases hint : isIntConstant operand = true <;>
      simp_all [negatedTokens, operandToken, Symbol.token]

theorem isComment_of_tokens {operation : Operation} (hlegal : operation.Legal)
    {code : List Lexeme} (hcode : code.map Lexeme.token = operation.tokens) :
    ∀ lexeme ∈ code, lexeme.isComment = false := by
  intro lexeme hlexeme
  have htoken : lexeme.token ∈ operation.tokens := hcode ▸ List.mem_map_of_mem hlexeme
  exact beq_eq_false_iff_ne.mpr (kind_ne_of_mem_tokens hlegal _ htoken).1

theorem readText_text {operation : Operation} (hlegal : operation.Legal) {comments : List String}
    (hcomments : ∀ comment ∈ comments, '\n' ∉ comment.toList) :
    readText (Instruction.text ⟨operation, comments⟩) = .ok ⟨operation, comments⟩ := by
  obtain ⟨hfailed, htokens⟩ :=
    scanFrom_of_scans (scans_operation hlegal (scans_comments hcomments)) 0
  have htext : (Instruction.text ⟨operation, comments⟩).toList =
      operation.text.toList ++ (commentsText comments).toList := by
    rw [Instruction.text, String.toList_append]
  rw [← htext] at hfailed htokens
  obtain ⟨code, rest, hlexemes, hcode, hrest⟩ := List.map_eq_append_iff.mp htokens
  obtain ⟨semicolon, last, rfl, hsemicolon, hlast⟩ := List.map_eq_cons_iff.mp hrest
  have hspells : List.Forall₂ SpellsComment comments (last.map Lexeme.token) := by
    rw [hlast, List.forall₂_map_right_iff, List.forall₂_same]
    exact fun comment _ => .spaced comment
  obtain ⟨hbodies, hall⟩ := comments_of_spellsComment hspells
  have hparts : Parts (Instruction.text ⟨operation, comments⟩) code semicolon last :=
    { scanned := hfailed
      lexemes_eq := hlexemes
      code := isComment_of_tokens hlegal hcode
      semicolon := beq_iff_eq.mpr (congrArg Token.kind hsemicolon)
      comments := hall }
  rw [hparts.readText_eq, readOperation_of_tokens hlegal hcode, hbodies]
  rfl

/-- Reading an instruction is reading its text, if the operation is legal. -/
theorem Instruction.read_eq_ok_iff_readText {text : String} {instruction : Instruction} :
    Instruction.read text = .ok instruction ↔
      readText text = .ok instruction ∧ instruction.operation.Legal := by
  unfold Instruction.read
  constructor
  · intro hread
    split at hread
    next => cases hread
    next found hfound =>
      split at hread
      next => cases hread
      next hvalidate =>
        obtain rfl := Except.ok.inj hread
        exact ⟨hfound, ((found.operation.validate_eq_ok_iff _).mp hvalidate).1⟩
  · rintro ⟨hread, hlegal⟩
    have hvalidate := (instruction.operation.validate_eq_ok_iff _).mpr ⟨hlegal, rfl⟩
    simp only [hread, hvalidate]

/-- Reading gives an instruction only if its comments are what comment tokens can
be. -/
theorem Instruction.newline_notMem_of_read {text : String} {instruction : Instruction}
    (hread : Instruction.read text = .ok instruction) :
    ∀ comment ∈ instruction.comments, '\n' ∉ comment.toList :=
  newline_notMem_of_readText (Instruction.read_eq_ok_iff_readText.mp hread).1

theorem Instruction.read_text {instruction : Instruction} (hlegal : instruction.operation.Legal)
    (hcomments : ∀ comment ∈ instruction.comments, '\n' ∉ comment.toList) :
    Instruction.read instruction.text = .ok instruction :=
  Instruction.read_eq_ok_iff_readText.mpr ⟨readText_text hlegal hcomments, hlegal⟩

/-- An instruction that was made, edited in any way and given any comments is read
back from its text exactly when no comment has a line end in it. -/
theorem Instruction.read_text_eq_ok_iff {operation : Operation} {made : Instruction}
    (hmade : Instruction.make operation = .ok made) (edits : List Edit) (comments : List String) :
    Instruction.read
        { edits.foldl Instruction.edited made with comments := comments }.text =
        .ok { edits.foldl Instruction.edited made with comments := comments } ↔
      ∀ comment ∈ comments, '\n' ∉ comment.toList := by
  obtain ⟨hlegal, rfl⟩ := (Instruction.make_eq_ok_iff operation made).mp hmade
  have hedited := @Instruction.legal_foldl_edited { operation := operation } edits hlegal
  constructor
  · intro hread
    exact Instruction.newline_notMem_of_read hread
  · intro hcomments
    exact Instruction.read_text hedited hcomments

/-- A negation of a variable, turned into one of a negative constant, with a comment
that looks like code and an empty one. -/
theorem Instruction.read_text_negated :
    Instruction.make (.unary .minus "x$l" "$t0") = .ok ⟨.unary .minus "x$l" "$t0", []⟩ ∧
      Instruction.read
          { [Edit.operand .operand "-07", .operand .destination "7"].foldl Instruction.edited
              ⟨.unary .minus "x$l" "$t0", []⟩ with comments := ["return; // later", ""] }.text =
        .ok { [Edit.operand .operand "-07", .operand .destination "7"].foldl Instruction.edited
              ⟨.unary .minus "x$l" "$t0", []⟩ with comments := ["return; // later", ""] } := by
  have hmade : Instruction.make (.unary .minus "x$l" "$t0") =
      .ok ⟨.unary .minus "x$l" "$t0", []⟩ := rfl
  exact ⟨hmade, (Instruction.read_text_eq_ok_iff hmade
    [.operand .operand "-07", .operand .destination "7"] ["return; // later", ""]).mpr (by decide)⟩

end ClassLang.Code
