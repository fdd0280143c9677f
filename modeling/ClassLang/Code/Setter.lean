/-
# Constructors and setters

Constructors and setters require operands to be of the class that their place
demands, one after the other, and fail at the first that is not. A setter works on
an operation in place: it can have assigned something when it fails, so each of
them assigns only after all that it requires.
-/

import ClassLang.Code.Operation

namespace ClassLang.Code

/-- The operand, if it is of the class that its place demands. -/
def require (opcode : Opcode) (role : Role) (expected : OperandClass) (operand : String) :
    Except IllegalOperand String :=
  if expected.accepts operand then .ok operand
  else .error ⟨opcode, ⟨role, expected, operand⟩⟩

/-- The operand of a place that may stay empty. -/
def requireOption (opcode : Opcode) (role : Role) (expected : OperandClass) :
    Option String → Except IllegalOperand (Option String)
  | none => return none
  | some operand => return some (← require opcode role expected operand)

/-- A direct call goes to a label; an indirect one takes the address from a
variable. -/
def requireTarget : CallTarget → Except IllegalOperand CallTarget
  | .direct label => return .direct (← require .call .target .label label)
  | .indirect variableName =>
    return .indirect (← require .callIndirect .target .var variableName)

/-- A change of an operation in place. What is assigned before a failure stays. -/
abbrev Setter := ExceptT IllegalOperand (StateM Operation) Unit

namespace Operation

/-- What a setter answers and what it leaves of an operation. -/
def apply (operation : Operation) (setter : Setter) : Except IllegalOperand Unit × Operation :=
  setter.run.run operation

/-- Require a part, then assign it. -/
def assign {α : Type} (required : Except IllegalOperand α) (place : α → Operation) : Setter := do
  let part ← required
  set (place part)

/-- Set the comparison of a branch. The operands that the branch holds have to suit the
new one as well. -/
def setComparison (op : Comparison) (left right : String) (onTrue onFalse : BlockId) :
    Setter := do
  let _ ← require .branch .left op.operandClass left
  let _ ← require .branch .right op.operandClass right
  set (branch op left right onTrue onFalse)

/-- Set where the result of a call is kept. -/
def setDestination (target : CallTarget) (dest : Option String) : Setter := do
  let opcode := (← get).opcode
  assign (requireOption opcode .destination .var dest) (call target)

/-- Set what is returned. -/
def setReturned (value : Option String) : Setter :=
  assign (requireOption .ret .value .value value) ret

/-- The operation that a setter makes of another one, unless it fails. -/
def filled (start : Operation) (setter : Setter) : Except IllegalOperand Operation :=
  match start.apply setter with
  | (.ok (), operation) => .ok operation
  | (.error fault, _) => .error fault

/-- Construct an operation from its parts. The places of calls and returns that may stay
empty are filled by their setters. -/
def validate : Operation → Except IllegalOperand Operation
  | branch op left right onTrue onFalse => do
    let left ← require .branch .left op.operandClass left
    let right ← require .branch .right op.operandClass right
    return branch op left right onTrue onFalse
  | call target dest => do
    let target ← requireTarget target
    (call target none).filled (setDestination target dest)
  | ret value => (ret none).filled (setReturned value)
  | param mode value => do
    let value ← require (.param mode) .value mode.operandClass value
    return param mode value
  | load kind dest source => do
    let dest ← require (.load kind) .destination .var dest
    let source ← require (.load kind) .source kind.sourceClass source
    return load kind dest source
  | loadEntry dest base index => do
    let dest ← require .loadEntry .destination .var dest
    let base ← require .loadEntry .base .var base
    let index ← require .loadEntry .index .varOrIndex index
    return loadEntry dest base index
  | storeEntry base index source => do
    let base ← require .storeEntry .base .var base
    let index ← require .storeEntry .index .varOrIndex index
    let source ← require .storeEntry .source .value source
    return storeEntry base index source
  | unary op dest operand => do
    let dest ← require (.unary op) .destination .var dest
    let operand ← require (.unary op) .operand op.operandClass operand
    return unary op dest operand
  | binary op dest left right => do
    let dest ← require (.binary op) .destination .var dest
    let left ← require (.binary op) .left op.operandClass left
    let right ← require (.binary op) .right op.operandClass right
    return binary op dest left right

end Operation

end ClassLang.Code
