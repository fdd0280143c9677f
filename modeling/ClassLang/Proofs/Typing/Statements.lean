/-
# Deciding statements

The check of a statement reports nothing exactly if the rules allow it, and then
leaves the scopes that the rules say. A branch, a loop body or a block is checked in
a scope of its own; however it changes that scope, those outside are as before once
it is closed.
-/

import ClassLang.Proofs.Typing.Expressions

namespace ClassLang

/-! ## Scopes -/

namespace Scopes

theorem leave_of_outer_eq {α : Type} {scopes after : Scopes α}
    (houter : after.outer = scopes.enter.outer) : after.leave = scopes := by
  rw [leave, houter]
  rfl

end Scopes

namespace Typing

open CheckM

variable {site : Site} {locals after : Scopes Ty} {returns : Ty} {inLoop : Bool} {line : Nat}

/-- A statement changes the innermost scope at most. -/
theorem StmtOk.outer_eq {stmt : Stmt} (hstmt : StmtOk site returns inLoop locals stmt after) :
    after.outer = locals.outer := by
  cases hstmt <;> rfl

theorem StmtsOk.outer_eq {stmts : List Stmt}
    (hstmts : StmtsOk site returns inLoop locals stmts after) : after.outer = locals.outer := by
  induction stmts generalizing locals with
  | nil =>
      cases hstmts
      rfl
  | cons stmt stmts ih =>
      cases hstmts with
      | cons hstmt hstmts => exact (ih hstmts).trans hstmt.outer_eq

theorem StmtOk.errorFree {stmt : Stmt}
    (hwritten : ∀ written ∈ stmt.writtenTypes, written.errorFree = true)
    (hstmt : StmtOk site returns inLoop locals stmt after) (hlocals : locals.ErrorFree) :
    after.ErrorFree := by
  cases hstmt with
  | @decl _ _ name type =>
      exact Scopes.All.add hlocals name (hwritten type (by simp [Stmt.writtenTypes]))
  | _ => exact hlocals

/-! ## Expressions that may be absent -/

/-- The check of the expression, if there is one, decides its type. -/
structure OptDecided (site : Site) (locals : Scopes Ty) (expr : Option Expr) : Prop where
  decides : Decides locals.ErrorFree Prod.snd (checkOptExpr site locals expr)
    (Option.Rel (HasType site locals) expr)
  errorFree : ∀ {found : Option Ty},
    locals.ErrorFree ∧ Option.Rel (HasType site locals) expr found →
    ∀ type ∈ found, type.errorFree = true

theorem optDecided (htables : site.hierarchy.ErrorFree) {expr : Option Expr}
    (hwritten : ∀ written ∈ Expr.optWrittenTypes expr, written.errorFree = true) :
    OptDecided site locals expr := by
  cases expr with
  | none =>
      refine ⟨(Decides.pure_snd none none).congr fun _ found => ?_, ?_⟩
      · constructor
        · rintro rfl
          exact .none
        · rintro ⟨⟩
          rfl
      · rintro _ ⟨_, ⟨⟩⟩
        nofun
  | some expr =>
      have hexpr : ExprDecided site locals expr := exprDecided htables expr hwritten
      refine ⟨?_, ?_⟩
      · refine Decides.congr (hexpr.decides.bind_snd fun piece type =>
          .pure_snd (some piece) (some type)) fun _ found => ?_
        constructor
        · rintro ⟨_, htype, rfl⟩
          exact .some htype
        · rintro ⟨htype⟩
          exact ⟨_, htype, rfl⟩
      · rintro _ ⟨hlocals, ⟨htype⟩⟩ type ⟨⟩
        exact hexpr.errorFree ⟨hlocals, htype⟩

/-- A rule on the type of an expression is a rule on the expression. -/
theorem exists_rel_iff {expr : Option Expr} {allowed : Ty → Prop} :
    (∃ found, Option.Rel (HasType site locals) expr found ∧ ∀ type ∈ found, allowed type) ↔
      ∀ value ∈ expr, ∃ type, HasType site locals value type ∧ allowed type := by
  cases expr with
  | none => exact ⟨nofun, fun _ => ⟨none, .none, nofun⟩⟩
  | some expr =>
      constructor
      · rintro ⟨_, ⟨htype⟩, hallowed⟩ value ⟨⟩
        exact ⟨_, htype, hallowed _ rfl⟩
      · intro hvalue
        obtain ⟨type, htype, hallowed⟩ := hvalue expr rfl
        exact ⟨some type, .some htype, by simpa using hallowed⟩

theorem exists_rel_iff_typed {expr : Option Expr} :
    (∃ found, Option.Rel (HasType site locals) expr found) ↔
      ∀ value ∈ expr, ∃ type, HasType site locals value type := by
  simpa using @exists_rel_iff site locals expr fun _ => True

/-! ## Rules on single types -/

theorem Site.decides_requireInit {given : Prop} (use : Use) (expected : Ty) (found : Option Ty) :
    Decides given (fun _ => ()) (site.requireInit line use expected found) fun _ =>
      ∀ type ∈ found, site.hierarchy.compatible expected type = true := by
  cases found with
  | none => exact (Decides.pure ()).congr fun _ _ => by simp
  | some type => exact (decides_requireCompatible use expected type).congr fun _ _ => by simp

theorem Site.decides_requirePredicate (construct : Construct) (found : Option Ty) :
    Decides (∀ type ∈ found, type.errorFree = true) (fun _ => ())
      (site.requirePredicate line construct found) fun _ => ∀ type ∈ found, type = .boolean := by
  cases found with
  | none => exact (Decides.pure ()).congr fun _ _ => by simp
  | some type =>
      exact ((decides_requireBoolean type construct).of_given fun h => h type rfl).congr
        fun _ _ => by simp

theorem decides_declareLocal {given : Prop} (name : String) (type : Ty) :
    Decides given id (declareLocal site locals line name type) fun after =>
      locals.peek name = none ∧ locals.add name type = after := by
  refine Decides.report_of_isSome ?_
  exact .unlessStopped locals (locals.add name type)

/-! ## Statements -/

/-- The check of the statement decides which scopes it leaves. -/
def StmtDecides (site : Site) (returns : Ty) (stmt : Stmt) : Prop :=
  ∀ loops inLoop, (loops != 0) = inLoop → ∀ locals, Decides locals.ErrorFree Prod.snd
    (checkStmt site (some returns) loops locals stmt) (StmtOk site returns inLoop locals stmt)

/-- The check of the statements decides which scopes they leave. -/
def StmtsDecided (site : Site) (returns : Ty) (stmts : List Stmt) : Prop :=
  ∀ loops inLoop, (loops != 0) = inLoop → ∀ locals, Decides locals.ErrorFree Prod.snd
    (checkStmts site (some returns) loops locals stmts) (StmtsOk site returns inLoop locals stmts)

/-- A statement in a scope of its own leaves the scopes outside as they were. -/
theorem StmtDecides.inScope {given : Prop} {body : Stmt} (hbody : StmtDecides site returns body)
    (locals : Scopes Ty) {loops : Nat} (hloops : (loops != 0) = inLoop) (rebuild : Stmt → Stmt)
    (hgiven : given → locals.ErrorFree) :
    Decides given Prod.snd
      (checkStmt site (some returns) loops locals.enter body >>= fun result =>
        pure (rebuild result.1, result.2.leave))
      fun after => (∃ inner, StmtOk site returns inLoop locals.enter body inner) ∧
        locals = after := by
  refine Decides.congr (((hbody loops inLoop hloops locals.enter).of_given hgiven).bind_snd
    fun piece inner => .pure_snd (rebuild piece) inner.leave) fun _ after => ?_
  constructor
  · rintro ⟨inner, hbody, rfl⟩
    exact ⟨⟨inner, hbody⟩, (Scopes.leave_of_outer_eq hbody.outer_eq).symm⟩
  · rintro ⟨⟨inner, hbody⟩, rfl⟩
    exact ⟨inner, hbody, Scopes.leave_of_outer_eq hbody.outer_eq⟩

/-- What follows on a condition may rely on it. -/
theorem ExprDecided.condition {α β : Type} {view : α → β} {cond : Expr} {construct : Construct}
    {next : Expr × Ty → CheckM α} {holds : β → Prop} (hcond : ExprDecided site locals cond)
    (hnext : ∀ piece found, Decides (locals.ErrorFree ∧ HasType site locals cond .boolean) view
      (next (piece, found)) holds) :
    Decides locals.ErrorFree view
      (checkExpr site locals cond >>= fun result =>
        site.requireBoolean line construct result.2 >>= fun _ => next result)
      fun seen => HasType site locals cond .boolean ∧ holds seen := by
  refine Decides.congr (hcond.decides.bind_snd fun piece found =>
    ((Site.decides_requireBoolean found construct).of_given hcond.errorFree).bind_unit
      fun _ => (hnext piece found).of_given ?_) fun _ seen => ?_
  · rintro ⟨⟨hlocals, htype⟩, rfl⟩
    exact ⟨hlocals, htype⟩
  constructor
  · rintro ⟨_, htype, rfl, hseen⟩
    exact ⟨htype, hseen⟩
  · rintro ⟨htype, hseen⟩
    exact ⟨_, htype, rfl, hseen⟩

namespace StmtDecides

theorem expr {subject : Expr} (hsubject : ∀ locals, ExprDecided site locals subject) :
    StmtDecides site returns (.expr subject) := by
  intro loops inLoop hloops locals
  refine Decides.congr ((hsubject locals).decides.bind_snd fun piece type =>
    .pure_snd (Stmt.expr piece) locals) fun _ after => ?_
  constructor
  · rintro ⟨_, hsubject, rfl⟩
    exact .expr hsubject
  · intro hstmt
    cases hstmt with
    | expr hsubject => exact ⟨_, hsubject, rfl⟩

theorem decl {name : String} {type : Ty} {init : Option Expr}
    (hinit : ∀ locals, OptDecided site locals init) :
    StmtDecides site returns (.decl name type init line) := by
  intro loops inLoop hloops locals
  refine Decides.congr (Site.decides_writtenType_bind fun declared =>
    ((hinit locals).decides.of_given And.left).bind_snd fun piece found =>
      (Site.decides_requireInit (.declaration name) declared found).bind_unit fun _ =>
        (decides_declareLocal name declared).bind fun after =>
          .pure_snd (Stmt.decl name type piece line) after) fun _ after => ?_
  constructor
  · rintro ⟨hvalid, found, hfound, hsuits, _, ⟨hfresh, rfl⟩, rfl⟩
    exact .decl hvalid (exists_rel_iff.mp ⟨found, hfound, hsuits⟩) hfresh
  · intro hstmt
    cases hstmt with
    | decl hvalid hinit hfresh =>
        obtain ⟨found, hfound, hsuits⟩ := exists_rel_iff.mpr hinit
        exact ⟨hvalid, found, hfound, hsuits, _, ⟨hfresh, rfl⟩, rfl⟩

theorem retVoid : StmtDecides site returns (.ret none line) := by
  intro loops inLoop hloops locals
  simp only [checkStmt, checkReturn, checkOptExpr, pure_bind, bind_assoc, Site.requireResult]
  refine Decides.congr ((Site.decides_require _ _).bind_unit fun _ =>
    .pure_snd (Stmt.ret none line) locals) fun _ after => ?_
  constructor
  · rintro ⟨hreturns, rfl⟩
    exact .retVoid (by simpa using hreturns)
  · intro hstmt
    cases hstmt with
    | retVoid hreturns => exact ⟨by simpa using hreturns, rfl⟩

theorem ret {value : Expr} (hreturns : site.hierarchy.validType true returns = true)
    (hvalue : ∀ locals, ExprDecided site locals value) :
    StmtDecides site returns (.ret (some value) line) := by
  intro loops inLoop hloops locals
  have hresult {given : Prop} (found : Ty) : Decides given (fun _ => ())
      (site.requireResult line returns (some found)) fun _ =>
        returns ≠ .void ∧ site.hierarchy.compatible returns found = true := by
    simp only [Site.requireResult, hreturns]
    split
    next hvoid =>
      exact (Decides.report_bind fun _ => .pure ()).congr fun _ _ => by simp [hvoid]
    next hvoid =>
      exact (Site.decides_requireCompatible .result returns found).congr fun _ _ => by simp [hvoid]
  simp only [checkStmt, checkReturn, checkOptExpr, bind_assoc, pure_bind]
  refine Decides.congr ((hvalue locals).decides.bind_snd fun piece found =>
    (hresult found).bind_unit fun _ => .pure_snd (Stmt.ret (some piece) line) locals)
    fun _ after => ?_
  constructor
  · rintro ⟨_, hvalue, ⟨hvoid, hsuits⟩, rfl⟩
    exact .ret hvoid hvalue hsuits
  · intro hstmt
    cases hstmt with
    | ret hvoid hvalue hsuits => exact ⟨_, hvalue, ⟨hvoid, hsuits⟩, rfl⟩

theorem ifThen {cond : Expr} {body : Stmt} (hcond : ∀ locals, ExprDecided site locals cond)
    (hbody : StmtDecides site returns body) :
    StmtDecides site returns (.ifThen cond body line) := by
  intro loops inLoop hloops locals
  refine Decides.congr ((hcond locals).condition fun piece _ =>
    hbody.inScope locals hloops (.ifThen piece · line) And.left) fun _ after => ?_
  constructor
  · rintro ⟨hcond, ⟨_, hbody⟩, rfl⟩
    exact .ifThen hcond hbody
  · intro hstmt
    cases hstmt with
    | ifThen hcond hbody => exact ⟨hcond, ⟨_, hbody⟩, rfl⟩

theorem ifElse {cond : Expr} {body other : Stmt} (hcond : ∀ locals, ExprDecided site locals cond)
    (hbody : StmtDecides site returns body) (hother : StmtDecides site returns other) :
    StmtDecides site returns (.ifElse cond body other line) := by
  intro loops inLoop hloops locals
  refine Decides.congr ((hcond locals).condition fun piece _ =>
    ((hbody loops inLoop hloops locals.enter).of_given And.left).bind_snd fun first inner =>
      hother.inScope inner.leave hloops (.ifElse piece first · line) ?_) fun _ after => ?_
  · rintro ⟨⟨hlocals, _⟩, hbody⟩
    rwa [Scopes.leave_of_outer_eq hbody.outer_eq]
  constructor
  · rintro ⟨hcond, inner, hbody, ⟨_, hother⟩, rfl⟩
    rw [Scopes.leave_of_outer_eq hbody.outer_eq] at hother ⊢
    exact .ifElse hcond hbody hother
  · intro hstmt
    cases hstmt with
    | ifElse hcond hbody hother =>
        have hleave := Scopes.leave_of_outer_eq hbody.outer_eq
        exact ⟨hcond, _, hbody, ⟨_, by rwa [hleave]⟩, hleave⟩

theorem whileLoop {cond : Expr} {body : Stmt} (hcond : ∀ locals, ExprDecided site locals cond)
    (hbody : StmtDecides site returns body) :
    StmtDecides site returns (.whileLoop cond body line) := by
  intro loops inLoop hloops locals
  refine Decides.congr ((hcond locals).condition fun piece _ =>
    hbody.inScope locals (rfl : (loops + 1 != 0) = true) (.whileLoop piece · line) And.left)
      fun _ after => ?_
  constructor
  · rintro ⟨hcond, ⟨_, hbody⟩, rfl⟩
    exact .whileLoop hcond hbody
  · intro hstmt
    cases hstmt with
    | whileLoop hcond hbody => exact ⟨hcond, ⟨_, hbody⟩, rfl⟩

theorem forLoop {init cond update : Option Expr} {body : Stmt}
    (hinit : ∀ locals, OptDecided site locals init) (hcond : ∀ locals, OptDecided site locals cond)
    (hupdate : ∀ locals, OptDecided site locals update) (hbody : StmtDecides site returns body) :
    StmtDecides site returns (.forLoop init cond update body line) := by
  intro loops inLoop hloops locals
  refine Decides.congr ((hinit locals).decides.bind_snd fun first _ =>
    ((hcond locals).decides.of_given And.left).bind_snd fun test found =>
      ((Site.decides_requirePredicate .forStatement found).of_given
        fun ⟨⟨hlocals, _⟩, hfound⟩ => (hcond locals).errorFree ⟨hlocals, hfound⟩).bind_unit fun _ =>
      ((hupdate locals).decides.of_given fun ⟨⟨⟨hlocals, _⟩, _⟩, _⟩ => hlocals).bind_snd
        fun second _ =>
        hbody.inScope locals (rfl : (loops + 1 != 0) = true) (.forLoop first test second · line)
          fun ⟨⟨⟨⟨hlocals, _⟩, _⟩, _⟩, _⟩ => hlocals) fun _ after => ?_
  constructor
  · rintro ⟨_, hinit, _, hcond, hboolean, _, hupdate, ⟨_, hbody⟩, rfl⟩
    refine .forLoop (exists_rel_iff_typed.mp ⟨_, hinit⟩) (fun expr hexpr => ?_)
      (exists_rel_iff_typed.mp ⟨_, hupdate⟩) hbody
    obtain ⟨_, htype, rfl⟩ := exists_rel_iff.mp ⟨_, hcond, hboolean⟩ expr hexpr
    exact htype
  · intro hstmt
    cases hstmt with
    | forLoop hinit hcond hupdate hbody =>
        obtain ⟨_, hinit⟩ := exists_rel_iff_typed.mpr hinit
        obtain ⟨_, hcond, hboolean⟩ := (@exists_rel_iff _ _ _ (· = .boolean)).mpr
          fun expr hexpr => ⟨.boolean, hcond expr hexpr, rfl⟩
        obtain ⟨_, hupdate⟩ := exists_rel_iff_typed.mpr hupdate
        exact ⟨_, hinit, _, hcond, hboolean, _, hupdate, ⟨_, hbody⟩, rfl⟩

theorem block {body : List Stmt} (hbody : StmtsDecided site returns body) :
    StmtDecides site returns (.block body line) := by
  intro loops inLoop hloops locals
  refine Decides.congr ((hbody loops inLoop hloops locals.enter).bind_snd fun piece inner =>
    .pure_snd (Stmt.block piece line) inner.leave) fun _ after => ?_
  constructor
  · rintro ⟨inner, hbody, rfl⟩
    rw [Scopes.leave_of_outer_eq hbody.outer_eq]
    exact .block hbody
  · intro hstmt
    cases hstmt with
    | block hbody => exact ⟨_, hbody, Scopes.leave_of_outer_eq hbody.outer_eq⟩

theorem breakLoop : StmtDecides site returns (.breakLoop line) := by
  intro loops inLoop hloops locals
  refine Decides.congr ((Site.decides_require _ _).bind_unit fun _ =>
    .pure_snd (Stmt.breakLoop line) locals) fun _ after => ?_
  rw [hloops]
  constructor
  · rintro ⟨rfl, rfl⟩
    exact .breakLoop
  · intro hstmt
    cases hstmt with
    | breakLoop => exact ⟨rfl, rfl⟩

end StmtDecides

theorem StmtsDecided.nil : StmtsDecided site returns [] := by
  intro loops inLoop hloops locals
  refine (Decides.pure_snd [] locals).congr fun _ after => ?_
  constructor
  · rintro rfl
    exact .nil
  · intro hstmts
    cases hstmts
    rfl

theorem StmtsDecided.cons {stmt : Stmt} {stmts : List Stmt}
    (hwritten : ∀ written ∈ stmt.writtenTypes, written.errorFree = true)
    (hstmt : StmtDecides site returns stmt) (hstmts : StmtsDecided site returns stmts) :
    StmtsDecided site returns (stmt :: stmts) := by
  intro loops inLoop hloops locals
  refine Decides.congr ((hstmt loops inLoop hloops locals).bind_snd fun piece middle =>
    ((hstmts loops inLoop hloops middle).of_given fun h => h.2.errorFree hwritten h.1).bind_snd
      fun pieces after => .pure_snd (piece :: pieces) after) fun _ after => ?_
  constructor
  · rintro ⟨_, hstmt, _, hstmts, rfl⟩
    exact .cons hstmt hstmts
  · intro hstmts
    cases hstmts with
    | cons hstmt hstmts => exact ⟨_, hstmt, _, hstmts, rfl⟩

mutual

/-- Every statement is decided whose written types are free of the error type. -/
theorem stmtDecides (htables : site.hierarchy.ErrorFree)
    (hreturns : site.hierarchy.validType true returns = true) : (stmt : Stmt) →
    (∀ written ∈ stmt.writtenTypes, written.errorFree = true) → StmtDecides site returns stmt
  | .expr subject, hwritten => by
      simp only [Stmt.writtenTypes] at hwritten
      exact .expr fun _ => exprDecided htables subject hwritten
  | .decl name type init line, hwritten => by
      simp only [Stmt.writtenTypes, List.forall_mem_cons] at hwritten
      exact .decl fun _ => optDecided htables hwritten.2
  | .ret none line, _ => .retVoid
  | .ret (some value) line, hwritten => by
      simp only [Stmt.writtenTypes, Expr.optWrittenTypes] at hwritten
      exact .ret hreturns fun _ => exprDecided htables value hwritten
  | .ifThen cond body line, hwritten => by
      simp only [Stmt.writtenTypes, List.forall_mem_append] at hwritten
      exact .ifThen (fun _ => exprDecided htables cond hwritten.1)
        (stmtDecides htables hreturns body hwritten.2)
  | .ifElse cond body other line, hwritten => by
      simp only [Stmt.writtenTypes, List.forall_mem_append] at hwritten
      exact .ifElse (fun _ => exprDecided htables cond hwritten.1.1)
        (stmtDecides htables hreturns body hwritten.1.2)
        (stmtDecides htables hreturns other hwritten.2)
  | .whileLoop cond body line, hwritten => by
      simp only [Stmt.writtenTypes, List.forall_mem_append] at hwritten
      exact .whileLoop (fun _ => exprDecided htables cond hwritten.1)
        (stmtDecides htables hreturns body hwritten.2)
  | .forLoop init cond update body line, hwritten => by
      simp only [Stmt.writtenTypes, List.forall_mem_append] at hwritten
      obtain ⟨⟨⟨hinit, hcond⟩, hupdate⟩, hbody⟩ := hwritten
      exact .forLoop (fun _ => optDecided htables hinit) (fun _ => optDecided htables hcond)
        (fun _ => optDecided htables hupdate) (stmtDecides htables hreturns body hbody)
  | .block body line, hwritten => by
      simp only [Stmt.writtenTypes] at hwritten
      exact .block (stmtsDecided htables hreturns body hwritten)
  | .breakLoop line, _ => .breakLoop

theorem stmtsDecided (htables : site.hierarchy.ErrorFree)
    (hreturns : site.hierarchy.validType true returns = true) : (stmts : List Stmt) →
    (∀ written ∈ Stmt.listWrittenTypes stmts, written.errorFree = true) →
      StmtsDecided site returns stmts
  | [], _ => .nil
  | stmt :: stmts, hwritten => by
      simp only [Stmt.listWrittenTypes, List.forall_mem_append] at hwritten
      exact .cons hwritten.1 (stmtDecides htables hreturns stmt hwritten.1)
        (stmtsDecided htables hreturns stmts hwritten.2)

end

end Typing

end ClassLang
