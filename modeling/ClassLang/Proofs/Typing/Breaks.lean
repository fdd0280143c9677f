/-
# Breaks outside of loops

A break is reported exactly if no loop of its method encloses it, once for each such break
and in their order. This is so because the check of a statement leaves the frame that it is
made in as it was: the scopes are those from before, and so is the number of loops.
-/

import ClassLang.Proofs.Typing.Positions
import ClassLang.Proofs.Typing.Restoring

namespace ClassLang

mutual

/-- The lines of the breaks in a statement that no loop of it encloses. -/
def Stmt.strayBreaks : Stmt → List Nat
  | .breakLoop line => [line]
  | .ifThen _ body _ => body.strayBreaks
  | .ifElse _ body other _ => body.strayBreaks ++ other.strayBreaks
  | .block body _ => Stmt.listStrayBreaks body
  | .expr _ | .decl _ _ _ _ | .ret _ _ => []
  | .whileLoop _ _ _ | .forLoop _ _ _ _ _ => []

/-- The lines of the breaks in statements that no loop of theirs encloses. -/
def Stmt.listStrayBreaks : List Stmt → List Nat
  | [] => []
  | stmt :: stmts => stmt.strayBreaks ++ Stmt.listStrayBreaks stmts

end

namespace Typing

open CheckM

/-! ## The record of a break -/

/-- Whether a record is about a break outside of a loop. -/
def isStrayBreak (record : Diagnostic) : Bool :=
  record.message == "break statement outside of a loop"

/-- The record of a break outside of a loop. -/
def Site.strayBreakAt (site : Site) (line : Nat) : Diagnostic :=
  .located .semantic site.file line "break statement outside of a loop"

/-- The records of breaks, each at its line, inside a number of loops. -/
def Site.strayRecords (site : Site) (loops : Nat) (lines : List Nat) : List Diagnostic :=
  if loops = 0 then lines.map site.strayBreakAt else []

section Records

variable {site : Site} {loops : Nat}

theorem strayRecords_nil : site.strayRecords loops [] = [] :=
  ite_self []

theorem strayRecords_append (first second : List Nat) :
    site.strayRecords loops (first ++ second) =
      site.strayRecords loops first ++ site.strayRecords loops second := by
  unfold Site.strayRecords
  split
  · exact List.map_append
  · rfl

/-- The text begins with another letter than the wording of the rule on breaks. -/
def BeginsElse (text : String) : Prop :=
  ∃ first rest, text.toList = first :: rest ∧ first ≠ 'b'

namespace BeginsElse

theorem ofList {first : Char} (hfirst : first ≠ 'b') (rest : List Char) :
    BeginsElse (String.ofList (first :: rest)) :=
  ⟨first, rest, String.toList_ofList, hfirst⟩

theorem append {text : String} (htext : BeginsElse text) (more : String) :
    BeginsElse (text ++ more) := by
  obtain ⟨first, rest, hcons, hfirst⟩ := htext
  refine ⟨first, rest ++ more.toList, ?_, hfirst⟩
  rw [String.toList_append, hcons]
  rfl

theorem ne {text : String} (htext : BeginsElse text) :
    text ≠ "break statement outside of a loop" := by
  obtain ⟨first, rest, hcons, hfirst⟩ := htext
  rintro rfl
  simp at hcons
  exact hfirst hcons.1.symm

end BeginsElse

/-- No other rule has the wording of the one on breaks, as the first letter shows. -/
theorem beginsElse_message {fault : Fault} (hfault : fault.isStrayBreak = false) :
    BeginsElse fault.message := by
  delta Fault.message
  cases fault with
  | strayBreak => cases hfault
  | notInt quantity found =>
      cases quantity with
      | arraySize => exact .append (.append (.ofList (by decide) _) _) _
      | arrayIndex => exact .append (.append (.ofList (by decide) _) _) _
  | unwantedValue | strayReturn => exact .ofList (by decide) _
  | _ =>
      dsimp only
      repeat with_reducible apply BeginsElse.append
      exact .ofList (by decide) _

theorem Site.allowsRules_unselected {line : Nat} :
    site.AllowsRules (fun record => isStrayBreak record = false) line :=
  fun _ hfault => beq_false_of_ne (beginsElse_message hfault).ne

end Records

/-! ## Statements -/

section Statements

variable {α : Type} {site : Site} {loops : Nat} {check : CheckM α}

theorem selects_nil (hcheck : Skips isStrayBreak check) :
    Selects isStrayBreak check (site.strayRecords loops []) := by
  rw [strayRecords_nil]
  exact .of_skips hcheck

/-- No break inside a loop is reported. -/
theorem selects_inLoop {lines : List Nat}
    (hcheck : Selects isStrayBreak check (site.strayRecords (loops + 1) lines)) :
    Selects isStrayBreak check (site.strayRecords loops []) := by
  rw [strayRecords_nil]
  exact hcheck

theorem selects_append {β : Type} {next : α → CheckM β} {first second : List Nat}
    (hcheck : Selects isStrayBreak check (site.strayRecords loops first))
    (hnext : ∀ value, Selects isStrayBreak (next value) (site.strayRecords loops second)) :
    Selects isStrayBreak (check >>= next) (site.strayRecords loops (first ++ second)) := by
  rw [strayRecords_append]
  exact hcheck.bind hnext

theorem selects_breakLoop (site : Site) (loops line : Nat) :
    Selects isStrayBreak (site.require (loops != 0) line .strayBreak)
      (site.strayRecords loops [line]) := by
  cases loops with
  | zero => exact .report rfl
  | succ loops => exact .of_skips (.pure ())

theorem skips_checkExpr (locals : Scopes Ty) (expr : Expr) :
    Skips isStrayBreak (checkExpr site locals expr) :=
  confined_checkExpr locals expr fun _ _ => Site.allowsRules_unselected

theorem skips_checkOptExpr (locals : Scopes Ty) (expr : Option Expr) :
    Skips isStrayBreak (checkOptExpr site locals expr) :=
  confined_checkOptExpr locals fun _ _ => Site.allowsRules_unselected

theorem skips_checkReturn (returns : Option Ty) (locals : Scopes Ty) (line : Nat)
    (value : Option Expr) : Skips isStrayBreak (checkReturn site returns locals line value) := by
  cases returns with
  | none => exact Site.confined_report_pure Site.allowsRules_unselected _ _ rfl
  | some returns =>
      exact .bind (skips_checkOptExpr locals value) fun _ =>
        .bind (Site.confined_requireResult Site.allowsRules_unselected _ _) fun _ => .pure _

variable (site) (returns : Option Ty)

mutual

theorem selects_checkStmt (loops : Nat) (locals : Scopes Ty) : (stmt : Stmt) →
    Selects isStrayBreak (checkStmt site returns loops locals stmt)
      (site.strayRecords loops stmt.strayBreaks)
  | .expr subject => selects_nil (.bind (skips_checkExpr locals subject) fun _ => .pure _)
  | .decl _ _ init _ =>
    selects_nil (.bind (Site.confined_writtenType Site.allowsRules_unselected _ _) fun _ =>
      .bind (skips_checkOptExpr locals init) fun _ =>
        .bind (Site.confined_requireInit Site.allowsRules_unselected _ _ _) fun _ =>
          .bind (confined_declareLocal locals Site.allowsRules_unselected _ _) fun _ => .pure _)
  | .ret value _ =>
    selects_nil (.bind (skips_checkReturn returns locals _ value) fun _ => .pure _)
  | .ifThen cond body _ =>
    .skip_bind (skips_checkExpr locals cond) fun _ =>
      .skip_bind (Site.confined_require Site.allowsRules_unselected _ _ rfl) fun _ =>
        .bind_skip (selects_checkStmt loops locals.enter body) fun _ => .pure _
  | .ifElse cond body other _ =>
    .skip_bind (skips_checkExpr locals cond) fun _ =>
      .skip_bind (Site.confined_require Site.allowsRules_unselected _ _ rfl) fun _ =>
        selects_append (selects_checkStmt loops locals.enter body) fun _ =>
          .bind_skip (selects_checkStmt loops _ other) fun _ => .pure _
  | .whileLoop cond body _ =>
    .skip_bind (skips_checkExpr locals cond) fun _ =>
      .skip_bind (Site.confined_require Site.allowsRules_unselected _ _ rfl) fun _ =>
        .bind_skip (selects_inLoop (selects_checkStmt (loops + 1) locals.enter body)) fun _ =>
          .pure _
  | .forLoop init cond update body _ =>
    .skip_bind (skips_checkOptExpr locals init) fun _ =>
      .skip_bind (skips_checkOptExpr locals cond) fun _ =>
        .skip_bind (Site.confined_requirePredicate Site.allowsRules_unselected _ _) fun _ =>
          .skip_bind (skips_checkOptExpr locals update) fun _ =>
            .bind_skip (selects_inLoop (selects_checkStmt (loops + 1) locals.enter body)) fun _ =>
              .pure _
  | .block body _ => .bind_skip (selects_checkStmts loops locals.enter body) fun _ => .pure _
  | .breakLoop line => .bind_skip (selects_breakLoop site loops line) fun _ => .pure _

theorem selects_checkStmts (loops : Nat) (locals : Scopes Ty) : (stmts : List Stmt) →
    Selects isStrayBreak (checkStmts site returns loops locals stmts)
      (site.strayRecords loops (Stmt.listStrayBreaks stmts))
  | [] => selects_nil (.pure _)
  | stmt :: stmts =>
    selects_append (selects_checkStmt loops locals stmt) fun _ =>
      .bind_skip (selects_checkStmts loops _ stmts) fun _ => .pure _

end

end Statements

/-! ## Methods -/

/-- A method starts outside of all loops. -/
theorem selects_checkMethod (site : Site) (method : MethodDecl) :
    Selects isStrayBreak (checkMethod site method)
      ((Stmt.listStrayBreaks method.body).map site.strayBreakAt) := by
  refine .skip_bind (.foldlM (fun param _ locals => ?_) _) fun locals => ?_
  · exact confined_declareParam method Site.allowsRules_unselected locals param
  · exact .bind_skip (selects_checkStmts site (some method.returnType) 0 locals method.body)
      fun _ => .pure _

/-- How the checks of a class leave the frames that they are made in, and what follows for
the breaks of its methods. -/
structure RestoresFrames (site : Site) : Prop where
  /-- The steps of an expression are those of the check. They change the log only, wherever
  they break off. -/
  exprs : ∀ (expr : Expr) (frame : Frame),
    (FrameM.ofExpr site expr).runOn frame =
      let checked := (checkExpr site frame.locals expr).runOn frame.log
      (checked.2.outcome.map fun _ => checked.1.2, { frame with log := checked.2.log })
  stmts : ∀ (returns : Option Ty) (stmt : Stmt) (frame : Frame),
    ScopeNeutral site returns stmt frame
  /-- There is a record for each break that no loop encloses and for no other, as far as the
  limit lets the check come. -/
  breaks : ∀ (method : MethodDecl) (pass : Pass),
    ∃ added, ((checkMethod site method).run pass).2.log.records = pass.log.records ++ added ∧
      added.filter isStrayBreak <+: (Stmt.listStrayBreaks method.body).map site.strayBreakAt ∧
      (((checkMethod site method).run pass).2.stopped = false →
        added.filter isStrayBreak = (Stmt.listStrayBreaks method.body).map site.strayBreakAt)

theorem restoresFrames (site : Site) : RestoresFrames site where
  exprs expr frame := (finds_checkExpr site frame.locals frame.loops expr).ends frame.log
  stmts := scopeNeutral_ofStmt site
  breaks method := (selects_checkMethod site method).exists_added

end Typing

end ClassLang
