/-
# Operations

An operation is one of nine shapes with operands in its places. Which class of
operands a place demands depends on the operator, the mode or the kind of the
operation.
-/

import ClassLang.Code.BlockId
import ClassLang.Code.Operand

namespace ClassLang.Code

/-- The comparison of a conditional branch. -/
inductive Comparison where
  | eq | ne | lt | le | gt | ge
  deriving DecidableEq, Repr

namespace Comparison

/-- The symbol that stands for the comparison. -/
def symbol : Comparison → Symbol
  | eq => .equal
  | ne => .notEqual
  | lt => .less
  | le => .lessEqual
  | gt => .greater
  | ge => .greaterEqual

/-- The comparison that a symbol stands for. -/
def ofSymbol? : Symbol → Option Comparison
  | .equal => some eq
  | .notEqual => some ne
  | .less => some lt
  | .lessEqual => some le
  | .greater => some gt
  | .greaterEqual => some ge
  | _ => none

/-- Any two values can be tested for equality; order is for integers. -/
def operandClass : Comparison → OperandClass
  | eq | ne => .value
  | lt | le | gt | ge => .varOrInt

theorem ofSymbol?_symbol (op : Comparison) : ofSymbol? op.symbol = some op := by
  cases op <;> rfl

end Comparison

/-- The operators of two-operand arithmetic and logic. -/
inductive Arithmetic where
  | add | sub | mul | div | mod | and | or
  deriving DecidableEq, Repr

namespace Arithmetic

/-- The symbol that stands for the operator. -/
def symbol : Arithmetic → Symbol
  | add => .plus
  | sub => .minus
  | mul => .star
  | div => .slash
  | mod => .percent
  | and => .andAnd
  | or => .orOr

/-- The operator that a symbol stands for. -/
def ofSymbol? : Symbol → Option Arithmetic
  | .plus => some add
  | .minus => some sub
  | .star => some mul
  | .slash => some div
  | .percent => some mod
  | .andAnd => some and
  | .orOr => some or
  | _ => none

/-- Logic works on booleans, arithmetic on integers. -/
def operandClass : Arithmetic → OperandClass
  | and | or => .varOrBool
  | add | sub | mul | div | mod => .varOrInt

theorem ofSymbol?_symbol (op : Arithmetic) : ofSymbol? op.symbol = some op := by
  cases op <;> rfl

end Arithmetic

/-- The operators of one operand. -/
inductive Negation where
  | minus | not
  deriving DecidableEq, Repr

namespace Negation

/-- The symbol that stands for the operator. -/
def symbol : Negation → Symbol
  | minus => .minus
  | not => .bang

/-- The minus sign is for integers, the other negation for booleans. -/
def operandClass : Negation → OperandClass
  | minus => .varOrInt
  | not => .varOrBool

end Negation

/-- How a value is passed to the next call. -/
inductive ParamMode where
  | standard
  | reference
  | error
  deriving DecidableEq, Repr

/-- What a parameter instruction may pass in each mode. -/
def ParamMode.operandClass : ParamMode → OperandClass
  | standard => .value
  | reference => .var
  | error => .varOrIndex

/-- What a load copies. -/
inductive LoadKind where
  | var
  | constant
  | address
  deriving DecidableEq, Repr

/-- What the source of a load may be. -/
def LoadKind.sourceClass : LoadKind → OperandClass
  | var => .var
  | constant => .constant
  | address => .label

/-- What a call transfers control to. -/
inductive CallTarget where
  /-- The code at a label. -/
  | direct (label : String)
  /-- The code whose address a variable holds. -/
  | indirect (variableName : String)
  deriving DecidableEq, Repr

/-- What an operation does, as named in messages. -/
inductive Opcode where
  | branch
  | call
  | callIndirect
  | ret
  | param (mode : ParamMode)
  | load (kind : LoadKind)
  | loadEntry
  | storeEntry
  | unary (op : Negation)
  | binary (op : Arithmetic)
  deriving DecidableEq, Repr

/-- The wording of an opcode. -/
def Opcode.text : Opcode → String
  | branch => "branch"
  | call => "call"
  | callIndirect => "indirect call"
  | ret => "return"
  | param .standard => "param"
  | param .reference => "reference param"
  | param .error => "error param"
  | load .var => "load"
  | load .constant => "load constant"
  | load .address => "load address"
  | loadEntry => "load entry"
  | storeEntry => "store entry"
  | unary .minus => "negate"
  | unary .not => "not"
  | binary .add => "add"
  | binary .sub => "sub"
  | binary .mul => "mul"
  | binary .div => "div"
  | binary .mod => "mod"
  | binary .and => "and"
  | binary .or => "or"

/-- The nine shapes of operations. -/
inductive Operation where
  /-- Go to one of two blocks, by a comparison. -/
  | branch (op : Comparison) (left right : String) (onTrue onFalse : BlockId)
  /-- Call a method and perhaps keep its result. -/
  | call (target : CallTarget) (dest : Option String)
  /-- Leave the method, perhaps with a value. -/
  | ret (value : Option String)
  /-- Pass a value to the next call. -/
  | param (mode : ParamMode) (value : String)
  /-- Copy a value. -/
  | load (kind : LoadKind) (dest source : String)
  /-- Read an array entry. -/
  | loadEntry (dest base index : String)
  /-- Write an array entry. -/
  | storeEntry (base index source : String)
  | unary (op : Negation) (dest operand : String)
  | binary (op : Arithmetic) (dest left right : String)
  deriving DecidableEq, Repr

/-- The part that an operand plays in an operation. -/
inductive Role where
  | left | right | target | destination | value | source | base | index | operand
  deriving DecidableEq, Repr

/-- The wording of a role in messages. -/
def Role.text : Role → String
  | left => "left operand"
  | right => "right operand"
  | target => "target"
  | destination => "destination"
  | value => "value"
  | source => "source"
  | base => "base"
  | index => "index"
  | operand => "operand"

/-- A demand: the operand in this role has to be of this class. -/
structure Demand where
  role : Role
  expected : OperandClass
  operand : String
  deriving DecidableEq, Repr

/-- Whether the operand is as demanded. -/
def Demand.met (demand : Demand) : Bool :=
  demand.expected.accepts demand.operand

/-- An operand that is not of the class that its place demands. -/
structure IllegalOperand where
  opcode : Opcode
  demand : Demand
  deriving DecidableEq, Repr

/-- The wording of a refused operand. -/
def IllegalOperand.message (fault : IllegalOperand) : String :=
  "illegal operand '" ++ fault.demand.operand ++ "' for " ++ fault.demand.role.text ++ " of " ++
    fault.opcode.text ++ ": expected " ++ fault.demand.expected.text

namespace Operation

/-- The opcode of an operation. -/
def opcode : Operation → Opcode
  | branch .. => .branch
  | call (.direct _) _ => .call
  | call (.indirect _) _ => .callIndirect
  | ret _ => .ret
  | param mode _ => .param mode
  | load kind _ _ => .load kind
  | loadEntry .. => .loadEntry
  | storeEntry .. => .storeEntry
  | unary op _ _ => .unary op
  | binary op _ _ _ => .binary op

/-- Whether the operation is a conditional branch. -/
def isBranch : Operation → Bool
  | branch .. => true
  | _ => false

/-- Whether the operation leaves the method. -/
def isReturn : Operation → Bool
  | ret _ => true
  | _ => false

/-- The blocks that a conditional branch goes to, the one for a true comparison
first. -/
def branchTargets? : Operation → Option (BlockId × BlockId)
  | branch _ _ _ onTrue onFalse => some (onTrue, onFalse)
  | _ => none

end Operation

end ClassLang.Code
