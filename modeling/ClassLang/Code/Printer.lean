/-
# Writing instructions

Every operation has one written form, a line that ends in a semicolon. A negated
integer constant is put in parentheses, since two signs in a row would be read as
another number. Comments follow the operation, the first on its line and each
further one on a line of its own.
-/

import ClassLang.Code.Instruction

namespace ClassLang.Code

/-- The text of a symbol. -/
def Symbol.text (symbol : Symbol) : String :=
  String.ofList symbol.chars

/-- The part of a call that keeps its result. -/
def resultText : Option String → String
  | some dest => dest ++ " = "
  | none => ""

/-- The text of the target of a call. -/
def CallTarget.text : CallTarget → String
  | direct label => label
  | indirect variableName => "*" ++ variableName

/-- Whether an operand is an integer constant. -/
def isIntConstant (operand : String) : Bool :=
  match OperandKind.of? operand with
  | some (.int _) => true
  | _ => false

/-- The operand of a negation, in parentheses if it is an integer constant. -/
def negatedText (operand : String) : String :=
  if isIntConstant operand then "(" ++ operand ++ ")" else operand

/-- The written form of an operation. -/
def Operation.text : Operation → String
  | branch op left right onTrue onFalse =>
    "if " ++ left ++ " " ++ op.symbol.text ++ " " ++ right ++ " goto " ++ onTrue.text ++
      " else " ++ onFalse.text ++ ";"
  | call target dest => resultText dest ++ "call " ++ target.text ++ ";"
  | ret none => "return;"
  | ret (some value) => "return " ++ value ++ ";"
  | param .standard value => "param " ++ value ++ ";"
  | param .reference value => "param &" ++ value ++ ";"
  | param .error value => "errparam " ++ value ++ ";"
  | load .address dest source => dest ++ " = &" ++ source ++ ";"
  | load _ dest source => dest ++ " = " ++ source ++ ";"
  | loadEntry dest base index => dest ++ " = " ++ base ++ "[" ++ index ++ "];"
  | storeEntry base index source => base ++ "[" ++ index ++ "] = " ++ source ++ ";"
  | unary op dest operand => dest ++ " = " ++ op.symbol.text ++ negatedText operand ++ ";"
  | binary op dest left right =>
    dest ++ " = " ++ left ++ " " ++ op.symbol.text ++ " " ++ right ++ ";"

/-- The written form of comments. -/
def commentsText (comments : List String) : String :=
  "\n".intercalate (comments.map ("  // " ++ ·))

/-- The written form of an instruction. -/
def Instruction.text (instruction : Instruction) : String :=
  instruction.operation.text ++ commentsText instruction.comments

end ClassLang.Code
