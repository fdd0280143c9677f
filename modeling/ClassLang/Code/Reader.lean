/-
# Reading instructions

A text is read by scanning it, setting its comments apart, and recognising the
shape of what is left before the final semicolon. Shapes are tried in a fixed
order and the first that fits decides; only then are operators, block numbers
and, last of all, operands examined.
-/

import ClassLang.Code.Scan
import ClassLang.Code.Instruction

namespace ClassLang.Code

/-- What keeps a text from having the form of an instruction. -/
inductive TextDefect where
  | unexpectedCharacter (offset : Nat)
  | codeAfterComment
  | missingSemicolon
  | notComparison
  | notBlock (word : String)
  | notArithmetic
  | unknownShape
  deriving DecidableEq, Repr

/-- The wording of a defect. -/
def TextDefect.message : TextDefect → String
  | unexpectedCharacter offset => "unexpected character at offset " ++ Nat.repr offset
  | codeAfterComment => "code after comment"
  | missingSemicolon => "missing ';'"
  | notComparison => "expected a comparison operator"
  | notBlock word => "'" ++ word ++ "' is not a block reference"
  | notArithmetic => "expected a binary operator"
  | unknownShape => "unrecognized instruction shape"

/-- Why a text is not read as an instruction. -/
inductive ReadError where
  | malformed (text : String) (defect : TextDefect)
  | illegal (fault : IllegalOperand)
  deriving DecidableEq, Repr

/-- The wording of a failed reading. -/
def ReadError.message : ReadError → String
  | malformed text defect => "malformed instruction '" ++ text ++ "': " ++ defect.message
  | illegal fault => fault.message

namespace Lexeme

/-- Whether a lexeme is this plain name. -/
def isWord (lexeme : Lexeme) (word : String) : Bool :=
  lexeme.kind == .name && lexeme.text == word

/-- Whether a lexeme is this symbol. -/
def isSymbol (lexeme : Lexeme) (symbol : Symbol) : Bool :=
  lexeme.kind == .symbol symbol

/-- Whether a lexeme is a comment. -/
def isComment (lexeme : Lexeme) : Bool :=
  lexeme.kind == .comment

/-- The text of a comment without its slashes and at most one blank after them. -/
def commentBody (lexeme : Lexeme) : String :=
  match lexeme.text.toList.drop 2 with
  | ' ' :: body => String.ofList body
  | body => String.ofList body

/-- The comparison that a lexeme stands for. -/
def comparison (lexeme : Lexeme) : Except TextDefect Comparison :=
  match lexeme.kind with
  | .symbol symbol =>
    match Comparison.ofSymbol? symbol with
    | some op => .ok op
    | none => .error .notComparison
  | _ => .error .notComparison

/-- The arithmetic operator that a lexeme stands for. -/
def arithmetic (lexeme : Lexeme) : Except TextDefect Arithmetic :=
  match lexeme.kind with
  | .symbol symbol =>
    match Arithmetic.ofSymbol? symbol with
    | some op => .ok op
    | none => .error .notArithmetic
  | _ => .error .notArithmetic

/-- The block that a lexeme refers to. -/
def block (lexeme : Lexeme) : Except TextDefect BlockId :=
  match BlockId.ofText? lexeme.text with
  | some id => .ok id
  | none => .error (.notBlock lexeme.text)

end Lexeme

/-- A recognised shape: the operation, not yet examined, or the defect found in
it. -/
abbrev Reading := Except TextDefect Operation

/-- Recognise `if L op R goto Bt else Bf`. -/
def readBranch? : List Lexeme → Option Reading
  | [word, left, op, right, goWord, onTrue, elseWord, onFalse] =>
    if word.isWord "if" && goWord.isWord "goto" && onTrue.kind == .name &&
        elseWord.isWord "else" && onFalse.kind == .name then
      some do
        let op ← op.comparison
        let onTrue ← onTrue.block
        let onFalse ← onFalse.block
        return .branch op left.text right.text onTrue onFalse
    else none
  | _ => none

/-- Recognise `return` and `return v`. -/
def readReturn? : List Lexeme → Option Reading
  | [word] => if word.isWord "return" then some (.ok (.ret none)) else none
  | [word, value] => if word.isWord "return" then some (.ok (.ret (some value.text))) else none
  | _ => none

/-- Recognise `param &v`, `param v` and `errparam v`. -/
def readParam? : List Lexeme → Option Reading
  | [word, mark, value] =>
    if word.isWord "param" && mark.isSymbol .ampersand then
      some (.ok (.param .reference value.text))
    else none
  | [word, value] =>
    if word.isWord "param" then some (.ok (.param .standard value.text))
    else if word.isWord "errparam" then some (.ok (.param .error value.text))
    else none
  | _ => none

/-- Recognise the call itself: `call *v` and `call f`. -/
def readTarget? : List Lexeme → Option CallTarget
  | [word, mark, target] =>
    if word.isWord "call" && mark.isSymbol .star then some (.indirect target.text) else none
  | [word, target] => if word.isWord "call" then some (.direct target.text) else none
  | _ => none

/-- Recognise a call whose result is dropped. -/
def readCall? (lexemes : List Lexeme) : Option Reading :=
  (readTarget? lexemes).map fun target => .ok (.call target none)

/-- Recognise a call whose result is kept. -/
def readKeptCall? : List Lexeme → Option Reading
  | dest :: assign :: rest =>
    if assign.isSymbol .assign then
      (readTarget? rest).map fun target => .ok (.call target (some dest.text))
    else none
  | _ => none

/-- Recognise `d = &f`. -/
def readAddress? : List Lexeme → Option Reading
  | [dest, assign, mark, label] =>
    if assign.isSymbol .assign && mark.isSymbol .ampersand then
      some (.ok (.load .address dest.text label.text))
    else none
  | _ => none

/-- Recognise `d = -(n)`, `d = -v` and `d = !v`. -/
def readNegation? : List Lexeme → Option Reading
  | [dest, assign, sign, opening, value, closing] =>
    if assign.isSymbol .assign && sign.isSymbol .minus && opening.isSymbol .openParen &&
        value.kind == .int && closing.isSymbol .closeParen then
      some (.ok (.unary .minus dest.text value.text))
    else none
  | [dest, assign, sign, operand] =>
    if assign.isSymbol .assign && sign.isSymbol .minus then
      some (.ok (.unary .minus dest.text operand.text))
    else if assign.isSymbol .assign && sign.isSymbol .bang then
      some (.ok (.unary .not dest.text operand.text))
    else none
  | _ => none

/-- Recognise `d = b[i]`. -/
def readLoadEntry? : List Lexeme → Option Reading
  | [dest, assign, base, opening, index, closing] =>
    if assign.isSymbol .assign && opening.isSymbol .openBracket &&
        closing.isSymbol .closeBracket then
      some (.ok (.loadEntry dest.text base.text index.text))
    else none
  | _ => none

/-- Recognise `b[i] = s`. -/
def readStoreEntry? : List Lexeme → Option Reading
  | [base, opening, index, closing, assign, source] =>
    if opening.isSymbol .openBracket && closing.isSymbol .closeBracket &&
        assign.isSymbol .assign then
      some (.ok (.storeEntry base.text index.text source.text))
    else none
  | _ => none

/-- Recognise `d = l op r`. -/
def readArithmetic? : List Lexeme → Option Reading
  | [dest, assign, left, op, right] =>
    if assign.isSymbol .assign then
      some do
        let op ← op.arithmetic
        return .binary op dest.text left.text right.text
    else none
  | _ => none

/-- Recognise `d = s`, which copies a variable if `s` is one and a constant
otherwise. -/
def readCopy? : List Lexeme → Option Reading
  | [dest, assign, source] =>
    if assign.isSymbol .assign then
      let kind := if isVariable source.text then LoadKind.var else LoadKind.constant
      some (.ok (.load kind dest.text source.text))
    else none
  | _ => none

/-- The shapes in the order in which they are tried. -/
def shapes : List (List Lexeme → Option Reading) :=
  [readBranch?, readReturn?, readParam?, readCall?, readKeptCall?, readAddress?,
    readNegation?, readLoadEntry?, readStoreEntry?, readArithmetic?, readCopy?]

/-- Recognise the lexemes of an operation, without the final semicolon. -/
def readOperation (lexemes : List Lexeme) : Reading :=
  (shapes.findSome? fun shape => shape lexemes).getD (.error .unknownShape)

/-- Split off the semicolon that has to end the code. -/
def dropSemicolon (lexemes : List Lexeme) : Except TextDefect (List Lexeme) :=
  match lexemes.getLast? with
  | some last => if last.isSymbol .semicolon then .ok lexemes.dropLast else .error .missingSemicolon
  | none => .error .missingSemicolon

/-- The operation and the comments that a text spells out, before the operands
are examined. -/
def readText (text : String) : Except TextDefect Instruction :=
  let scan := Scan.ofText text
  match scan.failedAt with
  | some offset => .error (.unexpectedCharacter offset)
  | none =>
    let code := scan.lexemes.takeWhile fun lexeme => !lexeme.isComment
    let comments := scan.lexemes.dropWhile fun lexeme => !lexeme.isComment
    if comments.all Lexeme.isComment then do
      let code ← dropSemicolon code
      let operation ← readOperation code
      return ⟨operation, comments.map Lexeme.commentBody⟩
    else .error .codeAfterComment

/-- Read an instruction. -/
def Instruction.read (text : String) : Except ReadError Instruction :=
  match readText text with
  | .error defect => .error (.malformed text defect)
  | .ok instruction =>
    match instruction.operation.validate with
    | .error fault => .error (.illegal fault)
    | .ok _ => .ok instruction

end ClassLang.Code
