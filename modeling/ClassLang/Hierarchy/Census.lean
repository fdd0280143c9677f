/-
# Children and descendants

Once the parents of all classes are known, every class is listed under its parent. The
lists are followed from the root downwards, with the classes that are still to be
visited on a stack. From the end of this order back to its start, the descendants of
each class are summed up from those of its children.
-/

import ClassLang.Hierarchy.Basic

namespace ClassLang

/-- What is known of a class from the classes below it. -/
structure Kin where
  name : String
  /-- The classes with this parent, in the order in which they were accepted. -/
  children : List String := []
  /-- The number of classes below. -/
  descendants : Nat := 0
  deriving DecidableEq, Repr

/-- The kin of the classes of a hierarchy. -/
structure Census where
  entries : List Kin
  deriving DecidableEq, Repr

namespace Census

/-- The kin of the class with this name. -/
def get? (census : Census) (name : String) : Option Kin :=
  census.entries.find? fun kin => kin.name == name

/-- Change the kin of the class with this name. -/
def modify (census : Census) (name : String) (change : Kin → Kin) : Census :=
  ⟨census.entries.map fun kin => if kin.name = name then change kin else kin⟩

/-- The children of a class; none if there is no such class. -/
def children (census : Census) (name : String) : List String :=
  (census.get? name).elim [] Kin.children

/-- The number of descendants of a class. -/
def descendants (census : Census) (name : String) : Nat :=
  (census.get? name).elim 0 Kin.descendants

/-- List a class under its parent, if that is one of the classes. -/
def listUnderParent (hierarchy : Hierarchy) (census : Census) (name : String) : Census :=
  match hierarchy.parent? name with
  | none => census
  | some parent =>
    census.modify parent fun kin => { kin with children := kin.children ++ [name] }

/-- Visit the classes on the stack and from each the classes below it. A class that is
in `order` already is passed over. -/
def visit (census : Census) :
    (rounds : Nat) → (order stack : List String) → List String
  | 0, order, _ => order
  | _, order, [] => order
  | rounds + 1, order, name :: stack =>
    if name ∈ order then census.visit rounds order stack
    else census.visit rounds (order ++ [name]) (census.children name ++ stack)

/-- The classes from the root downwards. The name of the root comes first even if no
class has it. Only the root is put on the stack without being listed under a parent, so
there are never more rounds than classes and one. -/
def rootFirst (census : Census) : List String :=
  census.visit (census.entries.length + 1) [] [Ty.objectName]

/-- The descendants of children: each child and what is below it. -/
def sum (census : Census) (children : List String) : Nat :=
  children.foldl
    (fun total child => total + (census.get? child).elim 0 (·.descendants + 1)) 0

/-- Sum up the descendants of a class from those of its children. -/
def sumUp (census : Census) (name : String) : Census :=
  census.modify name fun kin => { kin with descendants := census.sum kin.children }

end Census

namespace Hierarchy

/-- The classes with their children. -/
def childLists (hierarchy : Hierarchy) : Census :=
  hierarchy.names.foldl (Census.listUnderParent hierarchy)
    ⟨hierarchy.names.map fun name => { name := name }⟩

/-- The classes from the root downwards, parents before children. -/
def rootFirst (hierarchy : Hierarchy) : List String :=
  hierarchy.childLists.rootFirst

/-- The classes with their children and the numbers of their descendants. Children come
after their parents in the order from the root, so they are counted before them. -/
def census (hierarchy : Hierarchy) : Census :=
  hierarchy.rootFirst.reverse.foldl Census.sumUp hierarchy.childLists

/-- The number of descendants of a class. Only classes below the root count. -/
def descendantCount (hierarchy : Hierarchy) (name : String) : Nat :=
  hierarchy.census.descendants name

end Hierarchy

end ClassLang
