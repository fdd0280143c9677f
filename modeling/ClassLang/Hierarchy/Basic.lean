/-
# Class trees

A hierarchy lists the classes of a program with the parents that were found for
them. Classes are known by name and no name occurs twice. When the root class is
there, every other class has a chain of parents that ends at it; walks along
parents are bounded by the number of classes.
-/

import ClassLang.Source.Builtin
import ClassLang.Scope

namespace ClassLang

/-- What is known of a class. -/
structure ClassInfo where
  name : String
  /-- The parent that is written in the declaration. -/
  declaredParent : Option String
  /-- The parent in the tree; the root has none. -/
  parent : Option String := none
  file : String
  line : Nat
  extendable : Bool
  builtin : Bool
  /-- The fields of the class, those of its ancestors further out. -/
  fields : Scopes Ty := {}
  /-- The methods of the class, those of its ancestors further out. -/
  methods : Scopes Signature := {}
  deriving DecidableEq, Repr

/-- A class as it is declared, not yet linked to a parent. Only built-in classes
can be closed to extension. -/
def ClassInfo.ofDecl (decl : ClassDecl) : ClassInfo :=
  let builtin := decl.isBuiltin && Builtin.isName decl.name
  { name := decl.name
    declaredParent := decl.parent
    file := decl.file
    line := decl.line
    extendable := !builtin || Builtin.isExtendable decl.name
    builtin }

/-- The parent that the declaration asks for; the root if it names none. -/
def ClassInfo.wantedParent (info : ClassInfo) : String :=
  info.declaredParent.getD Ty.objectName

/-- Whether a declaration is the one that a class was made from. -/
def ClassInfo.describes (info : ClassInfo) (decl : ClassDecl) : Bool :=
  decl.name == info.name && decl.file == info.file && decl.line == info.line

/-- The classes of a program in the order in which they were accepted. -/
structure Hierarchy where
  classes : List ClassInfo := []
  deriving DecidableEq, Repr

namespace Hierarchy

/-- The number of classes. -/
def size (hierarchy : Hierarchy) : Nat :=
  hierarchy.classes.length

/-- The names of the classes. -/
def names (hierarchy : Hierarchy) : List String :=
  hierarchy.classes.map ClassInfo.name

/-- The class with this name. -/
def get? (hierarchy : Hierarchy) (name : String) : Option ClassInfo :=
  hierarchy.classes.find? fun info => info.name == name

/-- Whether there is a class with this name. -/
def contains (hierarchy : Hierarchy) (name : String) : Bool :=
  (hierarchy.get? name).isSome

/-- Add a class at the end. -/
def insert (hierarchy : Hierarchy) (info : ClassInfo) : Hierarchy :=
  ⟨hierarchy.classes ++ [info]⟩

/-- Change the class with this name. -/
def modify (hierarchy : Hierarchy) (name : String) (change : ClassInfo → ClassInfo) : Hierarchy :=
  ⟨hierarchy.classes.map fun info => if info.name = name then change info else info⟩

/-- The parent of a class. -/
def parent? (hierarchy : Hierarchy) (name : String) : Option String :=
  (hierarchy.get? name).bind ClassInfo.parent

/-- The classes from a given one upwards, at most `steps` of them. -/
def chain (hierarchy : Hierarchy) : (steps : Nat) → Option String → List String
  | 0, _ => []
  | _, none => []
  | steps + 1, some name => name :: hierarchy.chain steps (hierarchy.parent? name)

/-- The parent of a class, the parent's parent, and so on. -/
def ancestors (hierarchy : Hierarchy) (name : String) : List String :=
  hierarchy.chain hierarchy.size (hierarchy.parent? name)

/-- Whether a class is another or one of its descendants. -/
def isSubclass (hierarchy : Hierarchy) (sub ancestor : String) : Bool :=
  hierarchy.contains sub && (sub == ancestor || (hierarchy.ancestors sub).contains ancestor)

/-- The method that a call on a class means. -/
def method? (hierarchy : Hierarchy) (className name : String) : Option Signature :=
  (hierarchy.get? className).bind fun info => info.methods.lookup name

/-- The type of the field that a name means in a class. -/
def field? (hierarchy : Hierarchy) (className name : String) : Option Ty :=
  (hierarchy.get? className).bind fun info => info.fields.lookup name

end Hierarchy

end ClassLang
