/-
# Building the class tree

First every declaration is accepted or rejected by its name, the built-in file
before all others, so that its classes win over later ones of the same name. Then
the accepted classes are linked to their parents in order. A class whose parent
cannot be used is reported and hangs under the root instead; of a cycle, every
class does.
-/

import ClassLang.Diagnostic.Pass
import ClassLang.Hierarchy.Census

namespace ClassLang.Hierarchy

/-- What can be wrong with the declaration of a class. -/
inductive Fault where
  | reservedName (name : String)
  | duplicate (name : String)
  | unknownParent (name parent : String)
  | closedParent (name parent : String)
  | cycle (name parent : String)
  | loop
  deriving DecidableEq, Repr

/-- The wording of a fault. -/
def Fault.message : Fault → String
  | reservedName name => "class name '" ++ name ++ "' is a reserved word"
  | duplicate name => "class '" ++ name ++ "' already declared"
  | unknownParent name parent => "class '" ++ name ++ "' extends unknown class '" ++ parent ++ "'"
  | closedParent name parent =>
    "class '" ++ name ++ "' cannot extend non-extendable class '" ++ parent ++ "'"
  | cycle name parent =>
    "inheritance cycle: class '" ++ name ++ "' cannot extend '" ++ parent ++ "'"
  | loop => "inheritance loop detected"

/-- A fault at the declaration of a class. -/
def Fault.at (fault : Fault) (file : String) (line : Nat) : Diagnostic :=
  .located .semantic file line fault.message

/-- The record of a declaration that cannot be accepted, if there is one. -/
def rejection? (hierarchy : Hierarchy) (decl : ClassDecl) : Option Diagnostic :=
  if isReserved decl.name then some ((Fault.reservedName decl.name).at decl.file decl.line)
  else if hierarchy.contains decl.name then
    some ((Fault.duplicate decl.name).at decl.file decl.line)
  else none

/-- Accept a declaration, unless its name is reserved or taken. -/
def accept (hierarchy : Hierarchy) (decl : ClassDecl) : CheckM Hierarchy := do
  match hierarchy.rejection? decl with
  | some record =>
    CheckM.report record
    return hierarchy
  | none => return hierarchy.insert (.ofDecl decl)

/-- Give a class a parent. -/
def setParent (hierarchy : Hierarchy) (name parent : String) : Hierarchy :=
  hierarchy.modify name fun info => { info with parent := some parent }

/-- The classes from `parent` up to before `child`, if `child` is among the
ancestors of `parent` or is `parent` itself. -/
def cycleThrough? (hierarchy : Hierarchy) (parent child : String) : Option (List String) :=
  let chain := parent :: hierarchy.ancestors parent
  if child ∈ chain then some (chain.takeWhile (· != child)) else none

/-- Hang a class of a cycle under the root and report it. -/
def detach (hierarchy : Hierarchy) (name : String) : CheckM Hierarchy := do
  match hierarchy.get? name with
  | none => return hierarchy
  | some info =>
    CheckM.report ((Fault.cycle name info.wantedParent).at info.file info.line)
    return hierarchy.setParent name Ty.objectName

/-- Link a class to its parent. -/
def link (hierarchy : Hierarchy) (name : String) : CheckM Hierarchy := do
  match hierarchy.get? name with
  | none => return hierarchy
  | some info =>
    let parent := info.wantedParent
    match hierarchy.get? parent with
    | none =>
      CheckM.report ((Fault.unknownParent name parent).at info.file info.line)
      return hierarchy.setParent name Ty.objectName
    | some parentInfo =>
      if parentInfo.extendable then
        match hierarchy.cycleThrough? parent name with
        | some chain => (name :: chain).foldlM detach hierarchy
        | none => return hierarchy.setParent name parent
      else
        CheckM.report ((Fault.closedParent name parent).at info.file info.line)
        return hierarchy.setParent name Ty.objectName

/-- The declarations of a program in the order in which they are accepted. -/
def declarations (program : Program) : List ClassDecl :=
  program.classes.filter ClassDecl.isBuiltin ++
    program.classes.filter fun decl => !decl.isBuiltin

/-- Whether all classes are below the root, where there is one. -/
def isRooted (hierarchy : Hierarchy) : Bool :=
  !hierarchy.contains Ty.objectName ||
    hierarchy.descendantCount Ty.objectName + 1 == hierarchy.size

/-- Build the class tree of a program. -/
def build (program : Program) : CheckM Hierarchy := do
  let accepted ← (declarations program).foldlM accept {}
  let linked ← (accepted.names.filter (· != Ty.objectName)).foldlM link accepted
  CheckM.require linked.isRooted (.general .semantic Fault.loop.message)
  return linked

end ClassLang.Hierarchy
