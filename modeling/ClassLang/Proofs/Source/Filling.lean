/-
# Types put back into a blank

A blank with the types that were taken out of it, from left to right, is all there is to
know of a program: writing the types back in the same order gives the program again. So
two programs with the same blank and the same types are the same.
-/

import ClassLang.Proofs.Source.Annotation

namespace ClassLang

/-! ## Writing types in order -/

/-- Writing types that are still to be written, the next one first. -/
abbrev FillM := StateM (List (Option Ty))

/-- Take the next type. -/
def FillM.next : FillM (Option Ty) :=
  fun types => (types.head?.getD none, types.tail)

mutual

/-- Write the type of an expression, then those of its parts. -/
def Expr.fill : Expr → FillM Expr
  | .node form line _ => do
    let ty ← FillM.next
    let form ← form.fill
    return .node form line ty

/-- Write the types of the parts of a form. -/
def Form.fill : Form → FillM Form
  | .call method args => do return .call method (← Expr.listFill args)
  | .callOn receiver method args => do
    let receiver ← receiver.fill
    return .callOn receiver method (← Expr.listFill args)
  | .newArray elem size => do return .newArray elem (← size.fill)
  | .instanceOf subject target => do return .instanceOf (← subject.fill) target
  | .cast target subject => do return .cast target (← subject.fill)
  | .assign qualifier name value => do return .assign qualifier name (← value.fill)
  | .assignElem qualifier name index value => do
    let index ← index.fill
    return .assignElem qualifier name index (← value.fill)
  | .binary op left right => do
    let left ← left.fill
    return .binary op left (← right.fill)
  | .unary op operand => do return .unary op (← operand.fill)
  | .field object name => do return .field (← object.fill) name
  | .elem name index => do return .elem name (← index.fill)
  | .fieldElem object name index => do
    let object ← object.fill
    return .fieldElem object name (← index.fill)
  | form => return form

/-- Write the types of expressions. -/
def Expr.listFill : List Expr → FillM (List Expr)
  | [] => return []
  | expr :: exprs => do
    let expr ← expr.fill
    return expr :: (← Expr.listFill exprs)

end

/-- Write the types of an expression that may be absent. -/
def Expr.optFill : Option Expr → FillM (Option Expr)
  | none => return none
  | some expr => do return some (← expr.fill)

mutual

/-- Write the types of the expressions of a statement. -/
def Stmt.fill : Stmt → FillM Stmt
  | .expr subject => do return .expr (← subject.fill)
  | .decl name type init line => do return .decl name type (← Expr.optFill init) line
  | .ret value line => do return .ret (← Expr.optFill value) line
  | .ifThen cond body line => do
    let cond ← cond.fill
    return .ifThen cond (← body.fill) line
  | .ifElse cond body other line => do
    let cond ← cond.fill
    let body ← body.fill
    return .ifElse cond body (← other.fill) line
  | .whileLoop cond body line => do
    let cond ← cond.fill
    return .whileLoop cond (← body.fill) line
  | .forLoop init cond update body line => do
    let init ← Expr.optFill init
    let cond ← Expr.optFill cond
    let update ← Expr.optFill update
    return .forLoop init cond update (← body.fill) line
  | .block body line => do return .block (← Stmt.listFill body) line
  | .breakLoop line => return .breakLoop line

/-- Write the types of the expressions of statements. -/
def Stmt.listFill : List Stmt → FillM (List Stmt)
  | [] => return []
  | stmt :: stmts => do
    let stmt ← stmt.fill
    return stmt :: (← Stmt.listFill stmts)

end

/-- Write the types of a member. -/
def Member.fill : Member → FillM Member
  | .field decl => do return .field { decl with init := ← Expr.optFill decl.init }
  | .method decl => do return .method { decl with body := ← Stmt.listFill decl.body }

/-- Write the types of a class. -/
def ClassDecl.fill (decl : ClassDecl) : FillM ClassDecl := do
  return { decl with members := ← decl.members.mapM Member.fill }

/-- Write the types of a program. -/
def Program.fill (program : Program) : FillM Program := do
  return ⟨← program.classes.mapM ClassDecl.fill⟩

/-! ## What is written is what was taken out -/

/-- Writing these types gives this value, and no other types are used. -/
def FillM.Fills {α : Type} (fill : FillM α) (types : List (Option Ty)) (value : α) : Prop :=
  ∀ rest, fill.run (types ++ rest) = (value, rest)

namespace FillM.Fills

variable {α β : Type} {fill : FillM α} {types more : List (Option Ty)} {value : α}

theorem pure (value : α) : Fills (Pure.pure value) [] value :=
  fun _ => rfl

theorem bind {next : α → FillM β} {result : β} (hfill : Fills fill types value)
    (hnext : Fills (next value) more result) : Fills (fill >>= next) (types ++ more) result := by
  intro rest
  rw [StateT.run_bind, List.append_assoc, hfill]
  exact hnext rest

/-- The last of several parts. -/
theorem bind_pure {finish : α → β} (hfill : Fills fill types value) :
    Fills (fill >>= fun value => Pure.pure (finish value)) types (finish value) := by
  intro rest
  rw [StateT.run_bind, hfill]
  rfl

theorem mapM {blank : α → α} {annotations : α → List (Option Ty)} {fill : α → FillM α}
    (hfill : ∀ piece, Fills (fill (blank piece)) (annotations piece) piece) (pieces : List α) :
    Fills ((pieces.map blank).mapM fill) (pieces.flatMap annotations) pieces := by
  induction pieces with
  | nil => exact .pure []
  | cons piece pieces ih =>
      rw [List.map_cons, List.mapM_cons, List.flatMap_cons]
      exact .bind (hfill piece) (.bind_pure ih)

end FillM.Fills

mutual

theorem Expr.fills : (expr : Expr) → expr.blank.fill.Fills expr.annotations expr
  | .node form _ ty => by
      intro rest
      -- the first type is that of the node itself
      show ((form.blank.fill >>= fun form => pure (Expr.node form _ ty)) : FillM Expr).run _ = _
      exact form.fills.bind_pure rest

theorem Form.fills : (form : Form) → form.blank.fill.Fills form.annotations form
  | .call _ args => (Expr.list_fills args).bind_pure
  | .callOn receiver _ args => receiver.fills.bind (Expr.list_fills args).bind_pure
  | .newArray _ size => size.fills.bind_pure
  | .instanceOf subject _ => subject.fills.bind_pure
  | .cast _ subject => subject.fills.bind_pure
  | .assign _ _ value => value.fills.bind_pure
  | .assignElem _ _ index value => index.fills.bind value.fills.bind_pure
  | .binary _ left right => left.fills.bind right.fills.bind_pure
  | .unary _ operand => operand.fills.bind_pure
  | .field object _ => object.fills.bind_pure
  | .elem _ index => index.fills.bind_pure
  | .fieldElem object _ index => object.fills.bind index.fills.bind_pure
  | .new _ | .var _ | .int _ | .bool _ | .str _ | .null => .pure _

theorem Expr.list_fills : (exprs : List Expr) →
    (Expr.listFill (Expr.listBlank exprs)).Fills (Expr.listAnnotations exprs) exprs
  | [] => .pure []
  | expr :: exprs => expr.fills.bind (Expr.list_fills exprs).bind_pure

end

theorem Expr.opt_fills (expr : Option Expr) :
    (Expr.optFill (expr.map Expr.blank)).Fills (Expr.optAnnotations expr) expr := by
  cases expr with
  | none => exact .pure none
  | some expr => exact expr.fills.bind_pure

mutual

theorem Stmt.fills : (stmt : Stmt) → stmt.blank.fill.Fills stmt.annotations stmt
  | .expr subject => subject.fills.bind_pure
  | .decl _ _ init _ => (Expr.opt_fills init).bind_pure
  | .ret value _ => (Expr.opt_fills value).bind_pure
  | .ifThen cond body _ => cond.fills.bind body.fills.bind_pure
  | .ifElse cond body other _ => by
      rw [Stmt.annotations, List.append_assoc]
      exact cond.fills.bind (body.fills.bind other.fills.bind_pure)
  | .whileLoop cond body _ => cond.fills.bind body.fills.bind_pure
  | .forLoop init cond update body _ => by
      rw [Stmt.annotations, List.append_assoc, List.append_assoc]
      exact (Expr.opt_fills init).bind ((Expr.opt_fills cond).bind
        ((Expr.opt_fills update).bind body.fills.bind_pure))
  | .block body _ => (Stmt.list_fills body).bind_pure
  | .breakLoop _ => .pure _

theorem Stmt.list_fills : (stmts : List Stmt) →
    (Stmt.listFill (Stmt.listBlank stmts)).Fills (Stmt.listAnnotations stmts) stmts
  | [] => .pure []
  | stmt :: stmts => stmt.fills.bind (Stmt.list_fills stmts).bind_pure

end

theorem Member.fills (member : Member) : member.blank.fill.Fills member.annotations member := by
  cases member with
  | field decl => exact (Expr.opt_fills decl.init).bind_pure
  | method decl => exact (Stmt.list_fills decl.body).bind_pure

theorem ClassDecl.fills (decl : ClassDecl) : decl.blank.fill.Fills decl.annotations decl :=
  (FillM.Fills.mapM Member.fills decl.members).bind_pure

theorem Program.fills (program : Program) :
    program.blank.fill.Fills program.annotations program :=
  (FillM.Fills.mapM ClassDecl.fills program.classes).bind_pure

/-- A program is told by its blank and by its types. -/
theorem Program.eq_of_blank_of_annotations {program other : Program}
    (hblank : program.blank = other.blank) (htypes : program.annotations = other.annotations) :
    program = other := by
  have hprogram := program.fills []
  rw [hblank, htypes, other.fills []] at hprogram
  exact (congrArg Prod.fst hprogram).symm

end ClassLang
