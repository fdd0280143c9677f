/-
# Programs and the types written into them

A check gives back the program that it was given, with types written into its
expressions. The program without any types, its blank, is the part that a check must not
change. The types are compared place by place: where a check has not come, the type from
before is kept.
-/

import ClassLang.Source.Builtin

namespace ClassLang

/-! ## Programs without types -/

mutual

/-- The expression without the types that were found for it and its parts. -/
def Expr.blank : Expr → Expr
  | .node form line _ => .node form.blank line none

/-- The form without the types that were found for its parts. -/
def Form.blank : Form → Form
  | .call method args => .call method (Expr.listBlank args)
  | .callOn receiver method args => .callOn receiver.blank method (Expr.listBlank args)
  | .new className => .new className
  | .newArray elem size => .newArray elem size.blank
  | .instanceOf subject target => .instanceOf subject.blank target
  | .cast target subject => .cast target subject.blank
  | .assign qualifier name value => .assign qualifier name value.blank
  | .assignElem qualifier name index value => .assignElem qualifier name index.blank value.blank
  | .binary op left right => .binary op left.blank right.blank
  | .unary op operand => .unary op operand.blank
  | .var name => .var name
  | .field object name => .field object.blank name
  | .elem name index => .elem name index.blank
  | .fieldElem object name index => .fieldElem object.blank name index.blank
  | .int value => .int value
  | .bool value => .bool value
  | .str value => .str value
  | .null => .null

/-- The expressions without their types. -/
def Expr.listBlank : List Expr → List Expr
  | [] => []
  | expr :: exprs => expr.blank :: Expr.listBlank exprs

end

mutual

/-- The statement without the types of its expressions. -/
def Stmt.blank : Stmt → Stmt
  | .expr subject => .expr subject.blank
  | .decl name type init line => .decl name type (init.map Expr.blank) line
  | .ret value line => .ret (value.map Expr.blank) line
  | .ifThen cond body line => .ifThen cond.blank body.blank line
  | .ifElse cond body other line => .ifElse cond.blank body.blank other.blank line
  | .whileLoop cond body line => .whileLoop cond.blank body.blank line
  | .forLoop init cond update body line =>
    .forLoop (init.map Expr.blank) (cond.map Expr.blank) (update.map Expr.blank) body.blank line
  | .block body line => .block (Stmt.listBlank body) line
  | .breakLoop line => .breakLoop line

/-- The statements without the types of their expressions. -/
def Stmt.listBlank : List Stmt → List Stmt
  | [] => []
  | stmt :: stmts => stmt.blank :: Stmt.listBlank stmts

end

/-- The field without the types of its initializer. -/
def FieldDecl.blank (field : FieldDecl) : FieldDecl :=
  { field with init := field.init.map Expr.blank }

/-- The method without the types of its body. -/
def MethodDecl.blank (method : MethodDecl) : MethodDecl :=
  { method with body := Stmt.listBlank method.body }

/-- The member without types. -/
def Member.blank : Member → Member
  | field decl => .field decl.blank
  | method decl => .method decl.blank

/-- The class without types. -/
def ClassDecl.blank (decl : ClassDecl) : ClassDecl :=
  { decl with members := decl.members.map Member.blank }

/-- The program without types. -/
def Program.blank (program : Program) : Program :=
  ⟨program.classes.map ClassDecl.blank⟩

/-- The types of all expressions in a program. -/
def Program.annotations (program : Program) : List (Option Ty) :=
  program.classes.flatMap ClassDecl.annotations

/-! ## Expressions inside others -/

mutual

/-- The expression and all expressions inside it. -/
def Expr.nodes : Expr → List Expr
  | .node form line ty => .node form line ty :: form.nodes

/-- The expressions inside a form. -/
def Form.nodes : Form → List Expr
  | .call _ args => Expr.listNodes args
  | .callOn receiver _ args => receiver.nodes ++ Expr.listNodes args
  | .newArray _ size => size.nodes
  | .instanceOf subject _ => subject.nodes
  | .cast _ subject => subject.nodes
  | .assign _ _ value => value.nodes
  | .assignElem _ _ index value => index.nodes ++ value.nodes
  | .binary _ left right => left.nodes ++ right.nodes
  | .unary _ operand => operand.nodes
  | .field object _ => object.nodes
  | .elem _ index => index.nodes
  | .fieldElem object _ index => object.nodes ++ index.nodes
  | .new _ | .var _ | .int _ | .bool _ | .str _ | .null => []

/-- The expressions and all expressions inside them. -/
def Expr.listNodes : List Expr → List Expr
  | [] => []
  | expr :: exprs => expr.nodes ++ Expr.listNodes exprs

end

/-- An expression that may be absent, and all expressions inside it. -/
def Expr.optNodes : Option Expr → List Expr
  | some expr => expr.nodes
  | none => []

mutual

/-- All expressions of a statement. -/
def Stmt.nodes : Stmt → List Expr
  | .expr subject => subject.nodes
  | .decl _ _ init _ => Expr.optNodes init
  | .ret value _ => Expr.optNodes value
  | .ifThen cond body _ => cond.nodes ++ body.nodes
  | .ifElse cond body other _ => cond.nodes ++ body.nodes ++ other.nodes
  | .whileLoop cond body _ => cond.nodes ++ body.nodes
  | .forLoop init cond update body _ =>
    Expr.optNodes init ++ Expr.optNodes cond ++ Expr.optNodes update ++ body.nodes
  | .block body _ => Stmt.listNodes body
  | .breakLoop _ => []

/-- All expressions of statements. -/
def Stmt.listNodes : List Stmt → List Expr
  | [] => []
  | stmt :: stmts => stmt.nodes ++ Stmt.listNodes stmts

end

/-- All expressions of a member. -/
def Member.nodes : Member → List Expr
  | field decl => Expr.optNodes decl.init
  | method decl => Stmt.listNodes decl.body

/-- All expressions of a class. -/
def ClassDecl.nodes (decl : ClassDecl) : List Expr :=
  decl.members.flatMap Member.nodes

/-! ## Blanks -/

mutual

theorem Expr.blank_blank : (expr : Expr) → expr.blank.blank = expr.blank
  | .node form line _ => by simp only [Expr.blank, Form.blank_blank form]

theorem Form.blank_blank : (form : Form) → form.blank.blank = form.blank
  | .call _ args => by simp only [Form.blank, Expr.listBlank_listBlank args]
  | .callOn receiver _ args => by
      simp only [Form.blank, Expr.blank_blank receiver, Expr.listBlank_listBlank args]
  | .newArray _ size => by simp only [Form.blank, Expr.blank_blank size]
  | .instanceOf subject _ => by simp only [Form.blank, Expr.blank_blank subject]
  | .cast _ subject => by simp only [Form.blank, Expr.blank_blank subject]
  | .assign _ _ value => by simp only [Form.blank, Expr.blank_blank value]
  | .assignElem _ _ index value => by
      simp only [Form.blank, Expr.blank_blank index, Expr.blank_blank value]
  | .binary _ left right => by
      simp only [Form.blank, Expr.blank_blank left, Expr.blank_blank right]
  | .unary _ operand => by simp only [Form.blank, Expr.blank_blank operand]
  | .field object _ => by simp only [Form.blank, Expr.blank_blank object]
  | .elem _ index => by simp only [Form.blank, Expr.blank_blank index]
  | .fieldElem object _ index => by
      simp only [Form.blank, Expr.blank_blank object, Expr.blank_blank index]
  | .new _ | .var _ | .int _ | .bool _ | .str _ | .null => rfl

theorem Expr.listBlank_listBlank :
    (exprs : List Expr) → Expr.listBlank (Expr.listBlank exprs) = Expr.listBlank exprs
  | [] => rfl
  | expr :: exprs => by
      simp only [Expr.listBlank, Expr.blank_blank expr, Expr.listBlank_listBlank exprs]

end

theorem Expr.map_blank_blank (expr : Option Expr) :
    (expr.map Expr.blank).map Expr.blank = expr.map Expr.blank := by
  cases expr with
  | none => rfl
  | some expr => exact congrArg some expr.blank_blank

mutual

theorem Stmt.blank_blank : (stmt : Stmt) → stmt.blank.blank = stmt.blank
  | .expr subject => by simp only [Stmt.blank, Expr.blank_blank]
  | .decl _ _ init _ => by simp only [Stmt.blank, Expr.map_blank_blank]
  | .ret value _ => by simp only [Stmt.blank, Expr.map_blank_blank]
  | .ifThen cond body _ => by simp only [Stmt.blank, Expr.blank_blank, Stmt.blank_blank body]
  | .ifElse cond body other _ => by
      simp only [Stmt.blank, Expr.blank_blank, Stmt.blank_blank body, Stmt.blank_blank other]
  | .whileLoop cond body _ => by simp only [Stmt.blank, Expr.blank_blank, Stmt.blank_blank body]
  | .forLoop init cond update body _ => by
      simp only [Stmt.blank, Expr.map_blank_blank, Stmt.blank_blank body]
  | .block body _ => by simp only [Stmt.blank, Stmt.listBlank_listBlank body]
  | .breakLoop _ => rfl

theorem Stmt.listBlank_listBlank :
    (stmts : List Stmt) → Stmt.listBlank (Stmt.listBlank stmts) = Stmt.listBlank stmts
  | [] => rfl
  | stmt :: stmts => by
      simp only [Stmt.listBlank, Stmt.blank_blank stmt, Stmt.listBlank_listBlank stmts]

end

theorem Member.blank_blank (member : Member) : member.blank.blank = member.blank := by
  cases member with
  | field decl => simp only [Member.blank, FieldDecl.blank, Expr.map_blank_blank]
  | method decl => simp only [Member.blank, MethodDecl.blank, Stmt.listBlank_listBlank]

theorem ClassDecl.blank_blank (decl : ClassDecl) : decl.blank.blank = decl.blank := by
  have hmember : Member.blank ∘ Member.blank = Member.blank := funext Member.blank_blank
  simp only [ClassDecl.blank, List.map_map, hmember]

theorem Program.blank_blank (program : Program) : program.blank.blank = program.blank := by
  have hdecl : ClassDecl.blank ∘ ClassDecl.blank = ClassDecl.blank := funext ClassDecl.blank_blank
  simp only [Program.blank, List.map_map, hdecl]

/-- Built-in classes have no expressions. -/
theorem Program.withBuiltins_blank (program : Program) :
    program.blank.withBuiltins = program.withBuiltins.blank := by
  have hbuiltin : Builtin.classes.map ClassDecl.blank = Builtin.classes := rfl
  have hany : program.blank.classes.any ClassDecl.isBuiltin =
      program.classes.any ClassDecl.isBuiltin := by
    rw [Program.blank, List.any_map]
    rfl
  simp only [Program.withBuiltins, hany]
  split
  · rfl
  · simp only [Program.blank, List.map_append, hbuiltin]

theorem Expr.isPlace_blank (expr : Expr) : expr.blank.isPlace = expr.isPlace := by
  obtain ⟨form, _, _⟩ := expr
  cases form <;> rfl

/-! ## No types are left in a blank -/

/-- Empty places, as many as there are types. -/
def emptied (types : List (Option Ty)) : List (Option Ty) :=
  types.map fun _ => none

@[simp]
theorem emptied_append (types more : List (Option Ty)) :
    emptied (types ++ more) = emptied types ++ emptied more :=
  List.map_append

mutual

theorem Expr.annotations_blank : (expr : Expr) → expr.blank.annotations = emptied expr.annotations
  | .node form _ _ => congrArg (none :: ·) form.annotations_blank

theorem Form.annotations_blank : (form : Form) → form.blank.annotations = emptied form.annotations
  | .call _ args => Expr.listAnnotations_blank args
  | .callOn receiver _ args => by
      simp only [Form.blank, Form.annotations, emptied_append, receiver.annotations_blank,
        Expr.listAnnotations_blank args]
  | .newArray _ size => size.annotations_blank
  | .instanceOf subject _ => subject.annotations_blank
  | .cast _ subject => subject.annotations_blank
  | .assign _ _ value => value.annotations_blank
  | .assignElem _ _ index value => by
      simp only [Form.blank, Form.annotations, emptied_append, index.annotations_blank,
        value.annotations_blank]
  | .binary _ left right => by
      simp only [Form.blank, Form.annotations, emptied_append, left.annotations_blank,
        right.annotations_blank]
  | .unary _ operand => operand.annotations_blank
  | .field object _ => object.annotations_blank
  | .elem _ index => index.annotations_blank
  | .fieldElem object _ index => by
      simp only [Form.blank, Form.annotations, emptied_append, object.annotations_blank,
        index.annotations_blank]
  | .new _ | .var _ | .int _ | .bool _ | .str _ | .null => rfl

theorem Expr.listAnnotations_blank : (exprs : List Expr) →
    Expr.listAnnotations (Expr.listBlank exprs) = emptied (Expr.listAnnotations exprs)
  | [] => rfl
  | expr :: exprs => by
      simp only [Expr.listBlank, Expr.listAnnotations, emptied_append, expr.annotations_blank,
        Expr.listAnnotations_blank exprs]

end

theorem Expr.optAnnotations_blank (expr : Option Expr) :
    Expr.optAnnotations (expr.map Expr.blank) = emptied (Expr.optAnnotations expr) := by
  cases expr with
  | none => rfl
  | some expr => exact expr.annotations_blank

mutual

theorem Stmt.annotations_blank : (stmt : Stmt) → stmt.blank.annotations = emptied stmt.annotations
  | .expr subject => subject.annotations_blank
  | .decl _ _ init _ => Expr.optAnnotations_blank init
  | .ret value _ => Expr.optAnnotations_blank value
  | .ifThen cond body _ => by
      simp only [Stmt.blank, Stmt.annotations, emptied_append, cond.annotations_blank,
        body.annotations_blank]
  | .ifElse cond body other _ => by
      simp only [Stmt.blank, Stmt.annotations, emptied_append, cond.annotations_blank,
        body.annotations_blank, other.annotations_blank]
  | .whileLoop cond body _ => by
      simp only [Stmt.blank, Stmt.annotations, emptied_append, cond.annotations_blank,
        body.annotations_blank]
  | .forLoop init cond update body _ => by
      simp only [Stmt.blank, Stmt.annotations, emptied_append, Expr.optAnnotations_blank,
        body.annotations_blank]
  | .block body _ => Stmt.listAnnotations_blank body
  | .breakLoop _ => rfl

theorem Stmt.listAnnotations_blank : (stmts : List Stmt) →
    Stmt.listAnnotations (Stmt.listBlank stmts) = emptied (Stmt.listAnnotations stmts)
  | [] => rfl
  | stmt :: stmts => by
      simp only [Stmt.listBlank, Stmt.listAnnotations, emptied_append, stmt.annotations_blank,
        Stmt.listAnnotations_blank stmts]

end

theorem Member.annotations_blank (member : Member) :
    member.blank.annotations = emptied member.annotations := by
  cases member with
  | field decl => exact Expr.optAnnotations_blank decl.init
  | method decl => exact Stmt.listAnnotations_blank decl.body

theorem ClassDecl.annotations_blank (decl : ClassDecl) :
    decl.blank.annotations = emptied decl.annotations := by
  simp only [ClassDecl.annotations, ClassDecl.blank, List.flatMap_map, Member.annotations_blank,
    emptied, List.map_flatMap]

theorem Program.annotations_blank (program : Program) :
    program.blank.annotations = emptied program.annotations := by
  simp only [Program.annotations, Program.blank, List.flatMap_map, ClassDecl.annotations_blank,
    emptied, List.map_flatMap]

/-! ## Places for types -/

/-- What becomes of the type at one place in two runs. The first starts from `old`, the
second from a blank, and they may come `apart`. -/
inductive Mark (apart : Prop) (old : Option Ty) : (new later : Option Ty) → Prop
  /-- Neither run writes. -/
  | kept : Mark apart old old none
  /-- Only the second run comes here. -/
  | ahead (hapart : apart) (type : Ty) : Mark apart old old (some type)
  /-- Both runs write the same type. -/
  | written (type : Ty) : Mark apart old (some type) (some type)

/-- What becomes of the types at all places. -/
inductive Marked (apart : Prop) : (old new later : List (Option Ty)) → Prop
  | nil : Marked apart [] [] []
  | cons {old new later : Option Ty} {olds news laters : List (Option Ty)}
      (hmark : Mark apart old new later) (hmarks : Marked apart olds news laters) :
      Marked apart (old :: olds) (new :: news) (later :: laters)

namespace Marked

variable {apart : Prop} {old new later : List (Option Ty)}

theorem append {moreOld moreNew moreLater : List (Option Ty)} (hmarks : Marked apart old new later)
    (hmore : Marked apart moreOld moreNew moreLater) :
    Marked apart (old ++ moreOld) (new ++ moreNew) (later ++ moreLater) := by
  induction hmarks with
  | nil => exact hmore
  | cons hmark _ ih => exact .cons hmark ih

/-- Neither run comes anywhere. -/
theorem kept (types : List (Option Ty)) : Marked apart types types (emptied types) := by
  induction types with
  | nil => exact .nil
  | cons type types ih => exact .cons .kept ih

/-- Runs that do not come apart write the same, and the first keeps the rest. -/
theorem eq_zipWith (hmarks : Marked False old new later) :
    new = List.zipWith Option.or later old := by
  induction hmarks with
  | nil => rfl
  | cons hmark _ ih =>
      rw [List.zipWith_cons_cons, ← ih]
      cases hmark with
      | kept => rfl
      | ahead hapart => exact absurd hapart id
      | written type => rfl

/-- What the first run writes into a blank, the second writes too. -/
theorem getElem?_of_emptied {types : List (Option Ty)}
    (hmarks : Marked apart (emptied types) new later) {place : Nat} {type : Ty}
    (hnew : new[place]? = some (some type)) : later[place]? = some (some type) := by
  generalize hold : emptied types = old at hmarks
  induction hmarks generalizing types place with
  | nil => exact hnew
  | cons hmark _ ih =>
      obtain ⟨_, types, rfl, rfl, htypes⟩ := List.map_eq_cons_iff.mp hold
      cases place with
      | zero =>
          cases hmark with
          | kept => exact hnew
          | ahead => cases hnew
          | written => exact hnew
      | succ place => exact ih hnew htypes

end Marked

/-- Pieces of a program with types written into them. -/
class Annotated (α : Type) where
  blank : α → α
  annotations : α → List (Option Ty)

instance : Annotated Expr := ⟨Expr.blank, Expr.annotations⟩
instance : Annotated Form := ⟨Form.blank, Form.annotations⟩
instance : Annotated (List Expr) := ⟨Expr.listBlank, Expr.listAnnotations⟩
instance : Annotated (Option Expr) := ⟨Option.map Expr.blank, Expr.optAnnotations⟩
instance : Annotated Stmt := ⟨Stmt.blank, Stmt.annotations⟩
instance : Annotated (List Stmt) := ⟨Stmt.listBlank, Stmt.listAnnotations⟩
instance : Annotated FieldDecl := ⟨FieldDecl.blank, fun field => Expr.optAnnotations field.init⟩
instance : Annotated MethodDecl :=
  ⟨MethodDecl.blank, fun method => Stmt.listAnnotations method.body⟩
instance : Annotated Member := ⟨Member.blank, Member.annotations⟩
instance : Annotated ClassDecl := ⟨ClassDecl.blank, ClassDecl.annotations⟩
instance : Annotated Program := ⟨Program.blank, Program.annotations⟩

/-- Members and classes are checked one after the other. -/
instance (priority := low) {α : Type} [Annotated α] : Annotated (List α) :=
  ⟨List.map Annotated.blank, List.flatMap Annotated.annotations⟩

/-- What becomes of a piece in two runs, the second of which starts from its blank. -/
structure Traced {α : Type} [Annotated α] (apart : Prop) (old new later : α) : Prop where
  shape : Annotated.blank new = Annotated.blank old
  marks : Marked apart (Annotated.annotations old) (Annotated.annotations new)
    (Annotated.annotations later)

/-- A piece that neither run writes into. -/
theorem Traced.kept {α : Type} [Annotated α] {apart : Prop} {piece : α}
    (hblank : Annotated.annotations (Annotated.blank piece) =
      emptied (Annotated.annotations piece)) :
    Traced apart piece piece (Annotated.blank piece) := by
  refine ⟨rfl, ?_⟩
  rw [hblank]
  exact .kept _

end ClassLang
