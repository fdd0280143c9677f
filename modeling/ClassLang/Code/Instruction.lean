/-
# Instructions

An instruction is an operation with the comments that go along with it. It is made
by the constructor of its operation, and then only changed by setters, one for each
part that an operation of its shape has.
-/

import ClassLang.Code.Setter

namespace ClassLang.Code

/-- An operation with its comments. -/
structure Instruction where
  operation : Operation
  comments : List String := []
  deriving DecidableEq, Repr

/-- A change to a part of an operation. -/
inductive Edit where
  /-- Another comparison for a branch. -/
  | comparison (op : Comparison)
  /-- Other blocks for a branch to go to. -/
  | blocks (onTrue onFalse : BlockId)
  /-- Another target for a call. -/
  | target (target : CallTarget)
  /-- Keep the result of a call elsewhere, or drop it. -/
  | result (dest : Option String)
  /-- Return another value, or none. -/
  | returned (value : Option String)
  /-- Another operand in the place with this role. -/
  | operand (role : Role) (text : String)
  deriving DecidableEq, Repr

/-- The setter of an edit, if the operation has the part that the edit is for. -/
def Edit.setter? : Edit → Operation → Option Setter
  | comparison op, .branch _ left right onTrue onFalse =>
    some (Operation.setComparison op left right onTrue onFalse)
  | blocks onTrue onFalse, .branch op left right _ _ =>
    some (set (Operation.branch op left right onTrue onFalse))
  | operand .left text, .branch op _ right onTrue onFalse =>
    some (Operation.assign (require .branch .left op.operandClass text)
      (.branch op · right onTrue onFalse))
  | operand .right text, .branch op left _ onTrue onFalse =>
    some (Operation.assign (require .branch .right op.operandClass text)
      (.branch op left · onTrue onFalse))
  | target callee, .call _ dest => some (Operation.assign (requireTarget callee) (.call · dest))
  | result dest, .call callee _ => some (Operation.setDestination callee dest)
  | returned value, .ret _ => some (Operation.setReturned value)
  | operand .value text, .param mode _ =>
    some (Operation.assign (require (.param mode) .value mode.operandClass text) (.param mode))
  | operand .destination text, .load kind _ source =>
    some (Operation.assign (require (.load kind) .destination .var text) (.load kind · source))
  | operand .source text, .load kind dest _ =>
    some (Operation.assign (require (.load kind) .source kind.sourceClass text) (.load kind dest))
  | operand .destination text, .loadEntry _ base index =>
    some (Operation.assign (require .loadEntry .destination .var text) (.loadEntry · base index))
  | operand .base text, .loadEntry dest _ index =>
    some (Operation.assign (require .loadEntry .base .var text) (.loadEntry dest · index))
  | operand .index text, .loadEntry dest base _ =>
    some (Operation.assign (require .loadEntry .index .varOrIndex text) (.loadEntry dest base))
  | operand .base text, .storeEntry _ index source =>
    some (Operation.assign (require .storeEntry .base .var text) (.storeEntry · index source))
  | operand .index text, .storeEntry base _ source =>
    some (Operation.assign (require .storeEntry .index .varOrIndex text)
      (.storeEntry base · source))
  | operand .source text, .storeEntry base index _ =>
    some (Operation.assign (require .storeEntry .source .value text) (.storeEntry base index))
  | operand .destination text, .unary op _ argument =>
    some (Operation.assign (require (.unary op) .destination .var text) (.unary op · argument))
  | operand .operand text, .unary op dest _ =>
    some (Operation.assign (require (.unary op) .operand op.operandClass text) (.unary op dest))
  | operand .destination text, .binary op _ left right =>
    some (Operation.assign (require (.binary op) .destination .var text) (.binary op · left right))
  | operand .left text, .binary op dest _ right =>
    some (Operation.assign (require (.binary op) .left op.operandClass text)
      (.binary op dest · right))
  | operand .right text, .binary op dest left _ =>
    some (Operation.assign (require (.binary op) .right op.operandClass text)
      (.binary op dest left))
  | _, _ => none

namespace Instruction

/-- The instruction of a legal operation, without comments. -/
def make (operation : Operation) : Except IllegalOperand Instruction :=
  operation.validate.map fun operation => { operation := operation }

/-- Add a comment after those that are there. -/
def addComment (instruction : Instruction) (comment : String) : Instruction :=
  { instruction with comments := instruction.comments ++ [comment] }

/-- Call the setter of an edit: what it answers, and the instruction that it leaves.
Absent if the operation has no such part. -/
def edit? (instruction : Instruction) (edit : Edit) :
    Option (Except IllegalOperand Unit × Instruction) :=
  (edit.setter? instruction.operation).map fun setter =>
    let (result, operation) := instruction.operation.apply setter
    (result, { instruction with operation })

/-- The instruction after an attempted edit, whatever the setter answers. -/
def edited (instruction : Instruction) (edit : Edit) : Instruction :=
  (instruction.edit? edit).elim instruction Prod.snd

end Instruction

end ClassLang.Code
