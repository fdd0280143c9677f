/-
# Frames after a statement

A statement leaves the scopes as they were, except that a declaration that is not stopped
adds its name to the innermost scope, unless that has the name already. The loops are those
from before unless the check is stopped inside one of them.
-/

import ClassLang.Proofs.Typing.Frames
import ClassLang.Proofs.Typing.Statements

namespace ClassLang.Typing

open CheckM

/-! ## Scopes after a statement -/

/-- The scopes after a statement that is not stopped. Only a declaration adds a name, and only
to the innermost scope. -/
def Site.scopesAfter (site : Site) (locals : Scopes Ty) : Stmt → Scopes Ty
  | .decl name type _ _ =>
    if (locals.peek name).isSome then locals
    else locals.add name (if site.hierarchy.validType false type then type else .error)
  | _ => locals

section Scopes

variable {α β : Type} {site : Site} {locals after : Scopes Ty}

theorem Site.outer_scopesAfter (site : Site) (locals : Scopes Ty) (stmt : Stmt) :
    (site.scopesAfter locals stmt).outer = locals.outer := by
  cases stmt with
  | decl name type init line =>
      rw [scopesAfter]
      split
      · rfl
      · rfl
  | _ => rfl

/-- The check leaves all scopes outside the innermost as they are. -/
def KeepsOuter (locals : Scopes Ty) (check : CheckM (α × Scopes Ty)) : Prop :=
  ∀ pass, (check.run pass).1.2.outer = locals.outer

/-- The check leaves the scopes as they are if it is stopped, and else leaves those that are
given. -/
def Leaves (locals after : Scopes Ty) (check : CheckM (α × Scopes Ty)) : Prop :=
  ∀ pass, (check.run pass).1.2 = if (check.run pass).2.stopped then locals else after

namespace Leaves

theorem pure (piece : α) : Leaves locals locals (Pure.pure (piece, locals)) :=
  fun _ => (ite_self locals).symm

theorem bind {check : CheckM β} {next : β → CheckM (α × Scopes Ty)}
    (hnext : ∀ value, Leaves locals after (next value)) : Leaves locals after (check >>= next) :=
  fun pass => hnext (check.run pass).1 (check.run pass).2

/-- A check whose result is known before those that follow. -/
theorem bind_value {check : CheckM β} {next : β → CheckM (α × Scopes Ty)} {value : β}
    (hcheck : ∀ pass, (check.run pass).1 = value) (hnext : Leaves locals after (next value)) :
    Leaves locals after (check >>= next) := by
  intro pass
  show ((next (check.run pass).1).run (check.run pass).2).1.2 = _
  have hrun : (check >>= next).run pass = (next value).run (check.run pass).2 := by
    rw [← hcheck pass]
    rfl
  rw [hrun, hcheck pass]
  exact hnext _

theorem eq_of_running {check : CheckM (α × Scopes Ty)} (hcheck : Leaves locals after check)
    {pass : Pass} (hrunning : (check.run pass).2.stopped = false) :
    (check.run pass).1.2 = after := by
  rw [hcheck pass, hrunning]
  rfl

theorem eq_of_stopped {check : CheckM (α × Scopes Ty)} (hcheck : Leaves locals after check)
    {pass : Pass} (hstopped : (check.run pass).2.stopped = true) :
    (check.run pass).1.2 = locals := by
  rw [hcheck pass, hstopped]
  rfl

theorem keepsOuter {check : CheckM (α × Scopes Ty)} (hcheck : Leaves locals after check)
    (hafter : after.outer = locals.outer) : KeepsOuter locals check := by
  intro pass
  rw [hcheck pass]
  split
  · rfl
  · exact hafter

/-- A check in a scope of its own leaves nothing behind once that is closed. -/
theorem inScope {check : CheckM (β × Scopes Ty)} {next : β × Scopes Ty → CheckM (α × Scopes Ty)}
    (hcheck : KeepsOuter locals.enter check)
    (hnext : ∀ piece inside, Leaves inside.leave inside.leave (next (piece, inside))) :
    Leaves locals locals (check >>= next) := by
  intro pass
  have hrest := hnext (check.run pass).1.1 (check.run pass).1.2
  rw [Scopes.leave_of_outer_eq (hcheck pass)] at hrest
  exact hrest (check.run pass).2

end Leaves

theorem value_writtenType (line : Nat) (place : TypePlace) (type : Ty) (pass : Pass) :
    ((site.writtenType line place type).run pass).1 =
      if site.hierarchy.validType false type then type else .error := by
  unfold Site.writtenType
  split
  · rfl
  · rfl

theorem leaves_declareLocal (line : Nat) (name : String) (type : Ty) (piece : α) :
    Leaves locals (if (locals.peek name).isSome then locals else locals.add name type)
      (declareLocal site locals line name type >>= fun after => pure (piece, after)) := by
  unfold declareLocal
  split
  · exact fun _ => (ite_self locals).symm
  · exact fun _ => rfl

variable (site) (returns : Option Ty)

mutual

theorem leaves_checkStmt (loops : Nat) (locals : Scopes Ty) : (stmt : Stmt) →
    Leaves locals (site.scopesAfter locals stmt) (checkStmt site returns loops locals stmt)
  | .expr _ => .bind fun _ => .pure _
  | .decl _ _ _ _ =>
    .bind_value (value_writtenType _ _ _) <| .bind fun _ => .bind fun _ =>
      leaves_declareLocal _ _ _ _
  | .ret _ _ => .bind fun _ => .pure _
  | .ifThen _ body _ => .bind fun _ => .bind fun _ =>
      .inScope (keepsOuter_checkStmt loops locals.enter body) fun _ _ => .pure _
  | .ifElse _ body other _ => .bind fun _ => .bind fun _ =>
      .inScope (keepsOuter_checkStmt loops locals.enter body) fun _ inside =>
        .inScope (keepsOuter_checkStmt loops inside.leave.enter other) fun _ _ => .pure _
  | .whileLoop _ body _ => .bind fun _ => .bind fun _ =>
      .inScope (keepsOuter_checkStmt (loops + 1) locals.enter body) fun _ _ => .pure _
  | .forLoop _ _ _ body _ => .bind fun _ => .bind fun _ => .bind fun _ => .bind fun _ =>
      .inScope (keepsOuter_checkStmt (loops + 1) locals.enter body) fun _ _ => .pure _
  | .block body _ => .inScope (keepsOuter_checkStmts loops locals.enter body) fun _ _ => .pure _
  | .breakLoop _ => .bind fun _ => .pure _

theorem keepsOuter_checkStmt (loops : Nat) (locals : Scopes Ty) (stmt : Stmt) :
    KeepsOuter locals (checkStmt site returns loops locals stmt) :=
  (leaves_checkStmt loops locals stmt).keepsOuter (site.outer_scopesAfter locals stmt)

theorem keepsOuter_checkStmts (loops : Nat) (locals : Scopes Ty) : (stmts : List Stmt) →
    KeepsOuter locals (checkStmts site returns loops locals stmts)
  | [] => fun _ => rfl
  | stmt :: stmts => fun pass =>
    (keepsOuter_checkStmts loops _ stmts _).trans (keepsOuter_checkStmt loops locals stmt pass)

end

end Scopes

/-! ## Frames after a statement -/

/-- How the steps of a statement leave a frame. -/
structure ScopeNeutral (site : Site) (returns : Option Ty) (stmt : Stmt) (frame : Frame) :
    Prop where
  /-- The steps are those of the check. -/
  agrees : Matches frame.loops ((FrameM.ofStmt site returns stmt).runOn frame)
    ((checkStmt site returns frame.loops frame.locals stmt).runOn frame.log)
  /-- If they come to an end, only a declaration has left a name behind. -/
  ok : ∀ after, (FrameM.ofStmt site returns stmt).runOn frame = (.ok (), after) →
    after.locals = site.scopesAfter frame.locals stmt ∧ after.loops = frame.loops
  /-- If they break off, wherever that is, the scopes are those from before. -/
  stopped : ∀ failure after,
    (FrameM.ofStmt site returns stmt).runOn frame = (.error failure, after) →
      after.locals = frame.locals

theorem scopeNeutral_ofStmt (site : Site) (returns : Option Ty) (stmt : Stmt) (frame : Frame) :
    ScopeNeutral site returns stmt frame := by
  have hagrees := (mirrors_checkStmt site returns frame.loops frame.locals stmt).ends frame.log
  have hleaves := leaves_checkStmt site returns frame.loops frame.locals stmt
  refine ⟨hagrees, fun after hrun => ?_, fun failure after hrun => ?_⟩
  · rw [hrun] at hagrees
    have hrunning := Pass.running_of_outcome hagrees.outcome.symm
    exact ⟨hagrees.locals.trans (hleaves.eq_of_running hrunning), hagrees.loops hrunning⟩
  · rw [hrun] at hagrees
    have hstopped := Pass.stopped_of_outcome hagrees.outcome.symm
    exact hagrees.locals.trans (hleaves.eq_of_stopped hstopped)

-- an unknown name inside a loop, with no room for the report: the scopes are closed on the way
-- out, and the loop is not left
example :
    let body : Stmt := .block [.decl "x" .int none 2, .expr (.node (.var "y") 3 none)] 1
    let ended := (FrameM.ofStmt ⟨{}, "Main", "a"⟩ (some .void)
      (.whileLoop (.node (.bool true) 1 none) body 1)).runOn ⟨{ limit := 0 }, {}, 0⟩
    ended.1 = .error (.tooMany 0) ∧ ended.2.locals = {} ∧ ended.2.loops = 1 :=
  ⟨rfl, rfl, rfl⟩

end ClassLang.Typing
