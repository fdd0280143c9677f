/-
# Built-in classes and reserved words

Four classes come with the language. They have no bodies to check: they are
declarations in a file of their own, added to every program that has no class
from that file. Only the root class can be extended.
-/

import ClassLang.Source.Program

namespace ClassLang

/-- The words that cannot name a class. -/
def reservedWords : List String :=
  ["class", "extends", "new", "if", "else", "while", "for", "break", "return", "instanceof",
    "this", "super", "null", "true", "false", "void", "int", "boolean"]

/-- Whether a name is a reserved word. -/
def isReserved (name : String) : Bool :=
  reservedWords.contains name

namespace Builtin

/-- The file that the built-in classes are declared in. -/
def file : String := "<built-in>"

/-- The names of the built-in classes. -/
def names : List String :=
  ["Object", "String", "TextIO", "Sys"]

/-- Whether a name is that of a built-in class. -/
def isName (name : String) : Bool :=
  names.contains name

/-- Whether a name is that of a built-in class that can be extended. -/
def isExtendable (name : String) : Bool :=
  name == Ty.objectName

/-- A method without a body. -/
def method (name : String) (params : List Param) (returnType : Ty) : Member :=
  .method { name, returnType, params, line := 0 }

/-- A class of the built-in file. -/
def declare (name : String) (parent : Option String) (members : List Member) : ClassDecl :=
  { name, parent, file, line := 0, members }

/-- The root of the class tree. -/
def objectClass : ClassDecl :=
  declare "Object" none
    [method "clone" [] .object,
      method "equals" [⟨"o", .object⟩] .boolean,
      method "toString" [] .string]

/-- Character strings. -/
def stringClass : ClassDecl :=
  declare "String" (some "Object")
    [method "length" [] .int,
      method "equals" [⟨"str", .object⟩] .boolean,
      method "toString" [] .string,
      method "substring" [⟨"beginIndex", .int⟩, ⟨"endIndex", .int⟩] .string,
      method "concat" [⟨"str", .string⟩] .string]

/-- Input and output of text. -/
def textClass : ClassDecl :=
  declare "TextIO" (some "Object")
    [method "readStdin" [] .void,
      method "readFile" [⟨"filename", .string⟩] .void,
      method "writeStdout" [] .void,
      method "writeStderr" [] .void,
      method "writeFile" [⟨"filename", .string⟩] .void,
      method "getString" [] .string,
      method "getInt" [] .int,
      method "putString" [⟨"str", .string⟩] (.named "TextIO"),
      method "putInt" [⟨"i", .int⟩] (.named "TextIO")]

/-- The services of the system. -/
def systemClass : ClassDecl :=
  declare "Sys" (some "Object")
    [method "exit" [⟨"status", .int⟩] .void,
      method "time" [] .int,
      method "random" [] .int]

/-- The built-in classes, the root first. -/
def classes : List ClassDecl :=
  [objectClass, stringClass, textClass, systemClass]

end Builtin

/-- Whether a class is declared in the built-in file. -/
def ClassDecl.isBuiltin (decl : ClassDecl) : Bool :=
  decl.file == Builtin.file

/-- The program with the built-in classes at its end, unless it has classes from
the built-in file already. -/
def Program.withBuiltins (program : Program) : Program :=
  if program.classes.any ClassDecl.isBuiltin then program
  else ⟨program.classes ++ Builtin.classes⟩

end ClassLang
