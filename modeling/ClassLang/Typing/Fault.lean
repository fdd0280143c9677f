/-
# Typing faults

The rules that a checked program can break. Each has one wording, and every
diagnostic of the checker is the wording of a fault.
-/

import ClassLang.Source.Operator

namespace ClassLang.Typing

/-- Where a value has to suit a type. -/
inductive Use where
  | fieldInit (field : String)
  | argument (position : Nat) (method : String)
  | assignment (name : String)
  | elemAssignment (name : String)
  | declaration (name : String)
  | result
  deriving DecidableEq, Repr

/-- The wording of a use. -/
def Use.text : Use → String
  | fieldInit field => "in initializer of field '" ++ field ++ "'"
  | argument position method => "for argument " ++ Nat.repr position ++ " of '" ++ method ++ "'"
  | assignment name => "in assignment to '" ++ name ++ "'"
  | elemAssignment name => "in assignment to element of '" ++ name ++ "'"
  | declaration name => "in declaration of '" ++ name ++ "'"
  | result => "in return statement"

/-- Where a type is written. -/
inductive TypePlace where
  | new | newArray | instanceOf | cast
  | declaration (name : String)
  deriving DecidableEq, Repr

/-- The wording of a place. -/
def TypePlace.text : TypePlace → String
  | new => "in new expression"
  | newArray => "in new array expression"
  | instanceOf => "in instanceof expression"
  | cast => "in cast expression"
  | declaration name => "for variable '" ++ name ++ "'"

/-- The statements that have a predicate. -/
inductive Construct where
  | ifStatement | whileStatement | forStatement
  deriving DecidableEq, Repr

/-- The wording of a construct. -/
def Construct.text : Construct → String
  | ifStatement => "if statement"
  | whileStatement => "while statement"
  | forStatement => "for statement"

/-- The places where a number is needed. -/
inductive Quantity where
  | arraySize | arrayIndex
  deriving DecidableEq, Repr

/-- The wording of a quantity. -/
def Quantity.text : Quantity → String
  | arraySize => "array size"
  | arrayIndex => "array index"

/-- A broken rule. -/
inductive Fault where
  | incompatible (use : Use) (expected actual : Ty)
  | unknownType (type : Ty)
  | invalidType (type : Ty) (place : TypePlace)
  | notBoolean (construct : Construct) (found : Ty)
  | notInt (quantity : Quantity) (found : Ty)
  | notCallable (method : String) (found : Ty)
  | noMethod (method className : String)
  | argumentCount (method : String) (expected found : Nat)
  | instanceOfPrimitive (found target : Ty)
  | castPrimitive (found target : Ty)
  | castUnrelated (found target : Ty)
  | binaryOperands (op : BinaryOp) (required left right : Ty)
  | incomparable (op : BinaryOp) (left right : Ty)
  | unaryOperand (op : UnaryOp) (found : Ty)
  | notPlace (op : UnaryOp)
  | undeclaredVariable (name : String)
  | undeclaredClass (name : String)
  | undeclaredField (name className : String)
  | noSuperclass (className : String)
  | noFields (name : String) (found : Ty)
  | notArray (name : String) (found : Ty)
  | redeclared (name : String)
  | duplicateParam (param method : String)
  | missingValue (expected : Ty)
  | unwantedValue
  | strayReturn
  | strayBreak
  deriving DecidableEq, Repr

/-- The wording of a fault. -/
def Fault.message : Fault → String
  | incompatible use expected actual =>
    "incompatible types " ++ use.text ++ ": expected " ++ expected.text ++ ", found " ++ actual.text
  | unknownType type => "invalid type '" ++ type.text ++ "'"
  | invalidType type place => "invalid type '" ++ type.text ++ "' " ++ place.text
  | notBoolean construct found =>
    "predicate of " ++ construct.text ++ " must be boolean, found " ++ found.text
  | notInt quantity found => quantity.text ++ " must be int, found " ++ found.text
  | notCallable method found =>
    "cannot call method '" ++ method ++ "' on a value of type " ++ found.text
  | noMethod method className =>
    "method '" ++ method ++ "' not found in class '" ++ className ++ "'"
  | argumentCount method expected found =>
    "method '" ++ method ++ "' expects " ++ Nat.repr expected ++ " argument(s), found " ++
      Nat.repr found
  | instanceOfPrimitive found target =>
    "instanceof cannot be applied to primitive types (" ++ found.text ++ " instanceof " ++
      target.text ++ ")"
  | castPrimitive found target =>
    "cannot cast to or from a primitive type (" ++ found.text ++ " to " ++ target.text ++ ")"
  | castUnrelated found target =>
    "invalid types for casting: " ++ found.text ++ " and " ++ target.text
  | binaryOperands op required left right =>
    "operator '" ++ op.symbol ++ "' requires " ++ required.text ++ " operands, found " ++
      left.text ++ " and " ++ right.text
  | incomparable op left right =>
    "incompatible operand types for '" ++ op.symbol ++ "': " ++ left.text ++ " and " ++ right.text
  | unaryOperand op found =>
    "operator '" ++ op.symbol ++ "' requires " ++ op.operandType.text ++ " operand, found " ++
      found.text
  | notPlace op =>
    "operand of '" ++ op.symbol ++ "' must be a variable or an array element"
  | undeclaredVariable name => "undeclared variable '" ++ name ++ "'"
  | undeclaredClass name => "undeclared class '" ++ name ++ "'"
  | undeclaredField name className =>
    "undeclared field '" ++ name ++ "' in class '" ++ className ++ "'"
  | noSuperclass className => "class '" ++ className ++ "' has no superclass"
  | noFields name found =>
    "cannot access field '" ++ name ++ "' on a value of type " ++ found.text
  | notArray name found => "'" ++ name ++ "' is not an array (found " ++ found.text ++ ")"
  | redeclared name => "variable '" ++ name ++ "' already declared in this scope"
  | duplicateParam param method =>
    "parameter '" ++ param ++ "' already declared in method '" ++ method ++ "'"
  | missingValue expected => "missing return value in method returning " ++ expected.text
  | unwantedValue => "cannot return a value from a void method"
  | strayReturn => "return statement outside of a method"
  | strayBreak => "break statement outside of a loop"

end ClassLang.Typing
