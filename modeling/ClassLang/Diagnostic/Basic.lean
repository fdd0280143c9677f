/-
# Diagnostics

A diagnostic says what is wrong and, if that is known, where.
-/

namespace ClassLang

/-- The stage of processing that a diagnostic comes from. -/
inductive Stage where
  | lexical | syntactic | semantic
  deriving DecidableEq, Repr

/-- The wording of a stage. -/
def Stage.text : Stage → String
  | lexical => "lexical"
  | syntactic => "syntactic"
  | semantic => "semantic"

/-- A message with its place. -/
structure Diagnostic where
  stage : Stage
  file : Option String
  line : Option Nat
  message : String
  deriving DecidableEq, Repr

namespace Diagnostic

/-- A diagnostic at a line of a file. -/
def located (stage : Stage) (file : String) (line : Nat) (message : String) : Diagnostic :=
  ⟨stage, some file, some line, message⟩

/-- A diagnostic about the program as a whole. -/
def general (stage : Stage) (message : String) : Diagnostic :=
  ⟨stage, none, none, message⟩

/-- The place of a diagnostic, as it precedes the message. -/
def placeText (diagnostic : Diagnostic) : String :=
  match diagnostic.file, diagnostic.line with
  | some file, some line => file ++ ":" ++ Nat.repr line ++ ": "
  | some file, none => file ++ ": "
  | none, some line => "line " ++ Nat.repr line ++ ": "
  | none, none => ""

/-- The line that a report shows for a diagnostic. -/
def text (diagnostic : Diagnostic) : String :=
  diagnostic.placeText ++ diagnostic.stage.text ++ " error: " ++ diagnostic.message

/-- The line number that decides the order within a file. -/
def sortLine (diagnostic : Diagnostic) : Nat :=
  diagnostic.line.getD 0

end Diagnostic

end ClassLang
