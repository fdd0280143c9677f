/-
# Scopes

A stack of scopes, each a table from names to values. The outermost scope is
always there. A name means what the innermost scope that has it says.
-/

namespace ClassLang

/-- A table of names. The first entry for a name is the one that counts. -/
abbrev Scope (α : Type) := List (String × α)

/-- Nested scopes: the innermost, and those around it from the inside out. -/
structure Scopes (α : Type) where
  inner : Scope α := []
  outer : List (Scope α) := []
  deriving DecidableEq, Repr

namespace Scopes

variable {α : Type}

/-- One empty scope. -/
def empty : Scopes α := {}

/-- Open a scope inside the innermost. -/
def enter (scopes : Scopes α) : Scopes α :=
  ⟨[], scopes.inner :: scopes.outer⟩

/-- Close the innermost scope. The outermost scope cannot be closed. -/
def leave (scopes : Scopes α) : Scopes α :=
  match scopes.outer with
  | [] => scopes
  | scope :: scopes => ⟨scope, scopes⟩

/-- The number of scopes. -/
def depth (scopes : Scopes α) : Nat :=
  scopes.outer.length + 1

/-- Give a name a value in the innermost scope. -/
def add (scopes : Scopes α) (name : String) (value : α) : Scopes α :=
  { scopes with inner := (name, value) :: scopes.inner }

/-- The value of a name in the innermost scope. -/
def peek (scopes : Scopes α) (name : String) : Option α :=
  scopes.inner.lookup name

/-- The value of a name in the innermost scope that has it. -/
def lookup (scopes : Scopes α) (name : String) : Option α :=
  (scopes.inner :: scopes.outer).findSome? fun scope => scope.lookup name

/-- Give a name a value, and tell which value of the same scope it replaces. -/
def put (scopes : Scopes α) (name : String) (value : α) : Option α × Scopes α :=
  (scopes.peek name, scopes.add name value)

@[simp]
theorem leave_enter (scopes : Scopes α) : scopes.enter.leave = scopes := rfl

@[simp]
theorem depth_enter (scopes : Scopes α) : scopes.enter.depth = scopes.depth + 1 := rfl

@[simp]
theorem depth_add (scopes : Scopes α) (name : String) (value : α) :
    (scopes.add name value).depth = scopes.depth := rfl

@[simp]
theorem peek_enter (scopes : Scopes α) (name : String) : scopes.enter.peek name = none := rfl

@[simp]
theorem lookup_enter (scopes : Scopes α) (name : String) :
    scopes.enter.lookup name = scopes.lookup name := rfl

theorem peek_add (scopes : Scopes α) (name other : String) (value : α) :
    (scopes.add name value).peek other =
      if other = name then some value else scopes.peek other := by
  by_cases hname : other = name
  · simp [peek, add, hname]
  · have hbeq : (other == name) = false := by simpa using hname
    simp [peek, add, List.lookup_cons, hbeq, hname]

/-- A name found in the innermost scope is not looked for further out. -/
theorem lookup_eq (scopes : Scopes α) (name : String) :
    scopes.lookup name =
      (scopes.peek name).or (scopes.outer.findSome? fun scope => scope.lookup name) := by
  unfold lookup peek
  rw [List.findSome?_cons]
  cases scopes.inner.lookup name <;> rfl

theorem lookup_add (scopes : Scopes α) (name other : String) (value : α) :
    (scopes.add name value).lookup other =
      if other = name then some value else scopes.lookup other := by
  rw [lookup_eq, lookup_eq, peek_add]
  split <;> rfl

end Scopes

end ClassLang
