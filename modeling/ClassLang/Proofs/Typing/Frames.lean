/-
# Checking in place

The check of a statement hands its scopes on from step to step, and once the limit has
stopped the pass it runs on without effect. Here the same check is made of steps that change
a frame in place and break off at the limit, in the middle of whatever they are in. A scope
is closed however the steps inside it end; the count of loops is taken back only if they end
well. The two ways to check have the same outcome, the same log and the same scopes.
-/

import ClassLang.Proofs.Typing.Confinement

namespace ClassLang

/-! ## Passes that are stopped -/

namespace Pass

variable {pass : Pass}

theorem outcome_of_running (hrunning : pass.stopped = false) : pass.outcome = .ok () := by
  rw [outcome, hrunning]
  rfl

theorem outcome_of_stopped (hstopped : pass.stopped = true) :
    pass.outcome = .error (.tooMany pass.log.limit) := by
  rw [outcome, hstopped]
  rfl

theorem running_of_outcome (houtcome : pass.outcome = .ok ()) : pass.stopped = false := by
  cases hstopped : pass.stopped with
  | false => rfl
  | true =>
      rw [outcome_of_stopped hstopped] at houtcome
      cases houtcome

theorem stopped_of_outcome {failure : Failure} (houtcome : pass.outcome = .error failure) :
    pass.stopped = true := by
  cases hstopped : pass.stopped with
  | false =>
      rw [outcome_of_running hstopped] at houtcome
      cases houtcome
  | true => rfl

end Pass

theorem CheckM.Reporting.idle {α : Type} {check : CheckM α} (hcheck : Reporting check) {pass : Pass}
    (hstopped : pass.stopped = true) : (check.run pass).2 = pass := by
  obtain ⟨records, hrecords⟩ := hcheck pass
  rw [hrecords, Pass.reportAll_of_stopped hstopped]

namespace Typing

open CheckM

/-! ## Frames -/

/-- What the check of a body changes as it goes: the log, the scopes that are open, and the
number of loops around the place that it has come to. -/
structure Frame where
  log : Log
  locals : Scopes Ty
  loops : Nat

/-- Steps that change a frame. One that goes over the limit breaks off all that follow. -/
abbrev FrameM := ExceptT Failure (StateM Frame)

namespace FrameM

variable {α β : Type}

/-- The result of the steps, and the frame that they leave. -/
def runOn (frame : Frame) (steps : FrameM α) : Except Failure α × Frame :=
  steps.run.run frame

/-- A check that looks at the scopes and the loops and reports to the log. -/
def ofCheck (check : Scopes Ty → Nat → CheckM α) : FrameM α := do
  let frame ← get
  let (value, pass) := (check frame.locals frame.loops).runOn frame.log
  set { frame with log := pass.log }
  MonadExcept.ofExcept (pass.outcome.map fun _ => value)

/-- Steps in a scope of their own, which is closed also if they break off. -/
def inScope (steps : FrameM Unit) : FrameM Unit := do
  modify fun frame => { frame with locals := frame.locals.enter }
  let result ← ExceptT.lift steps.run
  modify fun frame => { frame with locals := frame.locals.leave }
  MonadExcept.ofExcept result

/-- Steps inside one more loop, which is not left if they break off. -/
def inLoop (steps : FrameM Unit) : FrameM Unit := do
  modify fun frame => { frame with loops := frame.loops + 1 }
  steps
  modify fun frame => { frame with loops := frame.loops - 1 }

/-- Add a variable to the innermost scope, which must not have it yet. -/
def declare (site : Site) (line : Nat) (name : String) (type : Ty) : FrameM Unit := do
  if ((← get).locals.peek name).isSome then
    ofCheck fun _ _ => site.report line (.redeclared name)
  else modify fun frame => { frame with locals := frame.locals.add name type }

mutual

/-- Check an expression and return its type. -/
def ofExpr (site : Site) : Expr → FrameM Ty
  | .node form line _ => ofForm site line form

/-- Check the form of an expression on a line and return its type. -/
def ofForm (site : Site) (line : Nat) : Form → FrameM Ty
  | .call method args => do
    let types ← ofExprs site args
    ofCheck fun _ _ => site.callType line site.className method types
  | .callOn receiver method args => do
    let receiverType ← ofExpr site receiver
    let className ← ofCheck fun _ _ => site.receiverClass line method receiverType
    let types ← ofExprs site args
    ofCheck fun _ _ => site.callTypeOn line className method types
  | .new className => ofCheck fun _ _ => site.newType line className
  | .newArray elem size => do
    let sizeType ← ofExpr site size
    ofCheck fun _ _ => site.newArrayType line elem sizeType
  | .instanceOf subject target => do
    let subjectType ← ofExpr site subject
    ofCheck fun _ _ => site.instanceOfType line subjectType target
  | .cast target subject => do
    let subjectType ← ofExpr site subject
    ofCheck fun _ _ => site.castType line subjectType target
  | .assign qualifier name value => do
    let target ← ofCheck fun locals _ => site.targetType locals line qualifier name
    let valueType ← ofExpr site value
    ofCheck fun _ _ => site.requireCompatible line (.assignment name) target valueType
    return target
  | .assignElem qualifier name index value => do
    let target ← ofCheck fun locals _ => site.targetType locals line qualifier name
    let indexType ← ofExpr site index
    ofCheck fun _ _ => site.requireInt line .arrayIndex indexType
    let valueType ← ofExpr site value
    let elem ← ofCheck fun _ _ => site.elemType line name target
    ofCheck fun _ _ => site.requireCompatible line (.elemAssignment name) elem valueType
    return elem
  | .binary op left right => do
    let leftType ← ofExpr site left
    let rightType ← ofExpr site right
    ofCheck fun _ _ => site.binaryType line op leftType rightType
  | .unary op operand => do
    let operandType ← ofExpr site operand
    ofCheck fun _ _ => site.unaryType line op operand.isPlace operandType
  | .var name => ofCheck fun locals _ => site.nameType locals line name
  | .field object name => do
    let objectType ← ofExpr site object
    ofCheck fun _ _ => site.accessType line name objectType
  | .elem name index => do
    let arrayType ← ofCheck fun locals _ => site.nameType locals line name
    let indexType ← ofExpr site index
    ofCheck fun _ _ => site.requireInt line .arrayIndex indexType
    ofCheck fun _ _ => site.elemType line name arrayType
  | .fieldElem object name index => do
    let objectType ← ofExpr site object
    let arrayType ← ofCheck fun _ _ => site.accessType line name objectType
    let indexType ← ofExpr site index
    ofCheck fun _ _ => site.requireInt line .arrayIndex indexType
    ofCheck fun _ _ => site.elemType line name arrayType
  | .int _ => return .int
  | .bool _ => return .boolean
  | .str _ => return .string
  | .null => return .null

/-- Check expressions in order and return their types. -/
def ofExprs (site : Site) : List Expr → FrameM (List Ty)
  | [] => return []
  | expr :: exprs => do
    let found ← ofExpr site expr
    let types ← ofExprs site exprs
    return found :: types

end

/-- Check an expression that may be absent. -/
def ofOptExpr (site : Site) : Option Expr → FrameM (Option Ty)
  | none => return none
  | some expr => do
    let found ← ofExpr site expr
    return some found

/-- Check the value of a return statement. -/
def ofReturn (site : Site) (returns : Option Ty) (line : Nat) (value : Option Expr) :
    FrameM Unit := do
  match returns with
  | none => ofCheck fun _ _ => site.report line .strayReturn
  | some returns =>
    let found ← ofOptExpr site value
    ofCheck fun _ _ => site.requireResult line returns found

mutual

/-- Check a statement of a method that returns `returns`, if there is a method around it. -/
def ofStmt (site : Site) (returns : Option Ty) : Stmt → FrameM Unit
  | .expr subject => do
    let _ ← ofExpr site subject
    return
  | .decl name type init line => do
    let declared ← ofCheck fun _ _ => site.writtenType line (.declaration name) type
    let found ← ofOptExpr site init
    ofCheck fun _ _ => site.requireInit line (.declaration name) declared found
    declare site line name declared
  | .ret value line => ofReturn site returns line value
  | .ifThen cond body line => do
    let found ← ofExpr site cond
    ofCheck fun _ _ => site.requireBoolean line .ifStatement found
    inScope (ofStmt site returns body)
  | .ifElse cond body other line => do
    let found ← ofExpr site cond
    ofCheck fun _ _ => site.requireBoolean line .ifStatement found
    inScope (ofStmt site returns body)
    inScope (ofStmt site returns other)
  | .whileLoop cond body line => do
    let found ← ofExpr site cond
    ofCheck fun _ _ => site.requireBoolean line .whileStatement found
    inScope (inLoop (ofStmt site returns body))
  | .forLoop init cond update body line => do
    let _ ← ofOptExpr site init
    let found ← ofOptExpr site cond
    ofCheck fun _ _ => site.requirePredicate line .forStatement found
    let _ ← ofOptExpr site update
    inScope (inLoop (ofStmt site returns body))
  | .block body _ => inScope (ofStmts site returns body)
  | .breakLoop line => ofCheck fun _ loops => site.require (loops != 0) line .strayBreak

/-- Check statements in order. -/
def ofStmts (site : Site) (returns : Option Ty) : List Stmt → FrameM Unit
  | [] => return
  | stmt :: stmts => do
    ofStmt site returns stmt
    ofStmts site returns stmts

end

/-! ## What the steps do to a frame -/

theorem runOn_bind_of_ok {steps : FrameM α} {next : α → FrameM β} {frame after : Frame} {value : α}
    (hsteps : steps.runOn frame = (.ok value, after)) :
    (steps >>= next).runOn frame = (next value).runOn after := by
  unfold runOn at hsteps ⊢
  rw [ExceptT.run_bind, StateT.run_bind, hsteps]
  rfl

theorem runOn_bind_of_error {steps : FrameM α} {next : α → FrameM β} {frame after : Frame}
    {failure : Failure} (hsteps : steps.runOn frame = (.error failure, after)) :
    (steps >>= next).runOn frame = (.error failure, after) := by
  unfold runOn at hsteps ⊢
  rw [ExceptT.run_bind, StateT.run_bind, hsteps]
  rfl

theorem runOn_ofExcept (result : Except Failure α) (frame : Frame) :
    (MonadExcept.ofExcept result : FrameM α).runOn frame = (result, frame) := by
  cases result with
  | ok value => rfl
  | error failure => rfl

theorem runOn_ofCheck (check : Scopes Ty → Nat → CheckM α) (frame : Frame) :
    (ofCheck check).runOn frame =
      (((check frame.locals frame.loops).runOn frame.log).2.outcome.map
          fun _ => ((check frame.locals frame.loops).runOn frame.log).1,
        { frame with log := ((check frame.locals frame.loops).runOn frame.log).2.log }) :=
  runOn_ofExcept _ _

theorem runOn_inScope (steps : FrameM Unit) (frame : Frame) :
    (inScope steps).runOn frame =
      let ended := steps.runOn { frame with locals := frame.locals.enter }
      (ended.1, { ended.2 with locals := ended.2.locals.leave }) :=
  runOn_ofExcept _ _

theorem runOn_inLoop (steps : FrameM Unit) (frame : Frame) :
    (inLoop steps).runOn frame =
      (steps >>= fun _ => modify fun after => { after with loops := after.loops - 1 }).runOn
        { frame with loops := frame.loops + 1 } :=
  rfl

end FrameM

/-! ## The two ways to check an expression -/

section Finds

variable {α β γ δ : Type} {locals : Scopes Ty} {loops : Nat}

theorem runOn_bind_of_running {check : CheckM α} {next : α → CheckM β} {log : Log}
    (hrunning : (check.runOn log).2.stopped = false) :
    (check >>= next).runOn log = (next (check.runOn log).1).runOn (check.runOn log).2.log := by
  have hpass : (check.runOn log).2 = { log := (check.runOn log).2.log } := by
    rw [← hrunning]
  calc (check >>= next).runOn log
      = (next (check.runOn log).1).run (check.runOn log).2 := rfl
    _ = (next (check.runOn log).1).runOn (check.runOn log).2.log := by rw [hpass]; rfl

/-- The steps find what is seen of the result of the check, and report what it reports. They
leave the scopes and the loops of a frame as they are. -/
structure Finds (locals : Scopes Ty) (loops : Nat) (view : α → γ) (steps : FrameM γ)
    (check : CheckM α) : Prop where
  reporting : Reporting check
  ends : ∀ log, steps.runOn ⟨log, locals, loops⟩ =
    ((check.runOn log).2.outcome.map fun _ => view (check.runOn log).1,
      ⟨(check.runOn log).2.log, locals, loops⟩)

namespace Finds

variable {view : α → γ} {later : β → δ} {steps : FrameM γ} {rest : γ → FrameM δ}
  {check : CheckM α} {next : α → CheckM β}

theorem eq_of_running (hsteps : Finds locals loops view steps check) {log : Log}
    (hrunning : (check.runOn log).2.stopped = false) :
    steps.runOn ⟨log, locals, loops⟩ =
      (.ok (view (check.runOn log).1), ⟨(check.runOn log).2.log, locals, loops⟩) := by
  rw [hsteps.ends log, Pass.outcome_of_running hrunning]
  rfl

theorem eq_of_stopped (hsteps : Finds locals loops view steps check) {log : Log}
    (hstopped : (check.runOn log).2.stopped = true) :
    steps.runOn ⟨log, locals, loops⟩ =
      (.error (.tooMany (check.runOn log).2.log.limit),
        ⟨(check.runOn log).2.log, locals, loops⟩) := by
  rw [hsteps.ends log, Pass.outcome_of_stopped hstopped]
  rfl

theorem pure {value : α} {found : γ} (hfound : view value = found) :
    Finds locals loops view (Pure.pure found) (Pure.pure value) where
  reporting := .pure value
  ends _ := by
    rw [← hfound]
    rfl

/-- If the first check is stopped, the second has no effect, as steps that are not taken. -/
theorem bind (hsteps : Finds locals loops view steps check)
    (hnext : ∀ value, Finds locals loops later (rest (view value)) (next value)) :
    Finds locals loops later (steps >>= rest) (check >>= next) where
  reporting := .bind hsteps.reporting fun value => (hnext value).reporting
  ends log := by
    cases hstopped : (check.runOn log).2.stopped with
    | false =>
        rw [FrameM.runOn_bind_of_ok (hsteps.eq_of_running hstopped),
          runOn_bind_of_running hstopped]
        exact (hnext _).ends _
    | true =>
        have hidle : ((check >>= next).runOn log).2 = (check.runOn log).2 :=
          (hnext _).reporting.idle hstopped
        rw [FrameM.runOn_bind_of_error (hsteps.eq_of_stopped hstopped), hidle,
          Pass.outcome_of_stopped hstopped]
        rfl

theorem of_bind_pure (hsteps : Finds locals loops view (steps >>= Pure.pure) check) :
    Finds locals loops view steps check := by
  rwa [bind_pure] at hsteps

/-- A rule is one step. -/
theorem rule {first : Scopes Ty → Nat → CheckM γ}
    (hrule : Confined (fun _ => True) (first locals loops)) :
    Finds locals loops id (FrameM.ofCheck first) (first locals loops) :=
  ⟨hrule.reporting, fun log => FrameM.runOn_ofCheck first ⟨log, locals, loops⟩⟩

/-- The answer of a rule is what is found. -/
theorem answer {first : Scopes Ty → Nat → CheckM δ} {next : δ → CheckM β}
    (hrule : Confined (fun _ => True) (first locals loops))
    (hnext : ∀ found, Finds locals loops later (Pure.pure found) (next found)) :
    Finds locals loops later (FrameM.ofCheck first) (first locals loops >>= next) :=
  of_bind_pure (.bind (.rule hrule) hnext)

/-- Steps do not write types into expressions. -/
theorem unlessStopped_bind {steps : FrameM δ} {old changed : α}
    (hnext : ∀ value, Finds locals loops later steps (next value)) :
    Finds locals loops later steps (CheckM.unlessStopped old changed >>= next) where
  reporting := .bind (.unlessStopped old changed) fun value => (hnext value).reporting
  ends log := (hnext _).ends log

end Finds

open Site

mutual

theorem finds_checkExpr (site : Site) (locals : Scopes Ty) (loops : Nat) : (expr : Expr) →
    Finds locals loops Prod.snd (FrameM.ofExpr site expr) (checkExpr site locals expr)
  | .node form line _ =>
    .of_bind_pure (.bind (finds_checkForm site locals loops line form) fun _ =>
      .unlessStopped_bind fun _ => .pure rfl)

theorem finds_checkForm (site : Site) (locals : Scopes Ty) (loops line : Nat) : (form : Form) →
    Finds locals loops Prod.snd (FrameM.ofForm site line form) (checkForm site locals line form)
  | .call _ args =>
    .bind (finds_checkExprs site locals loops args) fun _ =>
      .answer (confined_callType allowsRules_true _ _ _) fun _ => .pure rfl
  | .callOn receiver _ args =>
    .bind (finds_checkExpr site locals loops receiver) fun _ =>
      .bind (.rule (confined_receiverClass allowsRules_true _ _)) fun _ =>
        .bind (finds_checkExprs site locals loops args) fun _ =>
          .answer (confined_callTypeOn allowsRules_true _ _ _) fun _ => .pure rfl
  | .new _ => by
    rw [FrameM.ofForm, checkForm]
    exact .answer (confined_newType allowsRules_true _) fun _ => .pure rfl
  | .newArray _ size =>
    .bind (finds_checkExpr site locals loops size) fun _ =>
      .answer (confined_newArrayType allowsRules_true _ _) fun _ => .pure rfl
  | .instanceOf subject _ =>
    .bind (finds_checkExpr site locals loops subject) fun _ =>
      .answer (confined_instanceOfType allowsRules_true _ _) fun _ => .pure rfl
  | .cast _ subject =>
    .bind (finds_checkExpr site locals loops subject) fun _ =>
      .answer (confined_castType allowsRules_true _ _) fun _ => .pure rfl
  | .assign _ _ value =>
    .bind (.rule (confined_targetType allowsRules_true _ _ _)) fun _ =>
      .bind (finds_checkExpr site locals loops value) fun _ =>
        .bind (.rule (confined_requireCompatible allowsRules_true _ _ _)) fun _ => .pure rfl
  | .assignElem _ _ index value =>
    .bind (.rule (confined_targetType allowsRules_true _ _ _)) fun _ =>
      .bind (finds_checkExpr site locals loops index) fun _ =>
        .bind (.rule (confined_require allowsRules_true _ _ rfl)) fun _ =>
          .bind (finds_checkExpr site locals loops value) fun _ =>
            .bind (.rule (confined_elemType allowsRules_true _ _)) fun _ =>
              .bind (.rule (confined_requireCompatible allowsRules_true _ _ _)) fun _ => .pure rfl
  | .binary _ left right =>
    .bind (finds_checkExpr site locals loops left) fun _ =>
      .bind (finds_checkExpr site locals loops right) fun _ =>
        .answer (confined_binaryType allowsRules_true _ _ _) fun _ => .pure rfl
  | .unary _ operand =>
    .bind (finds_checkExpr site locals loops operand) fun _ =>
      .answer (confined_unaryType allowsRules_true _ _ _) fun _ => .pure rfl
  | .var _ => by
    rw [FrameM.ofForm, checkForm]
    exact .answer (confined_nameType allowsRules_true _ _) fun _ => .pure rfl
  | .field object _ =>
    .bind (finds_checkExpr site locals loops object) fun _ =>
      .answer (confined_accessType allowsRules_true _ _) fun _ => .pure rfl
  | .elem _ index =>
    .bind (.rule (confined_nameType allowsRules_true _ _)) fun _ =>
      .bind (finds_checkExpr site locals loops index) fun _ =>
        .bind (.rule (confined_require allowsRules_true _ _ rfl)) fun _ =>
          .answer (confined_elemType allowsRules_true _ _) fun _ => .pure rfl
  | .fieldElem object _ index =>
    .bind (finds_checkExpr site locals loops object) fun _ =>
      .bind (.rule (confined_accessType allowsRules_true _ _)) fun _ =>
        .bind (finds_checkExpr site locals loops index) fun _ =>
          .bind (.rule (confined_require allowsRules_true _ _ rfl)) fun _ =>
            .answer (confined_elemType allowsRules_true _ _) fun _ => .pure rfl
  | .int _ | .bool _ | .str _ | .null => .pure rfl

theorem finds_checkExprs (site : Site) (locals : Scopes Ty) (loops : Nat) : (exprs : List Expr) →
    Finds locals loops Prod.snd (FrameM.ofExprs site exprs) (checkExprs site locals exprs)
  | [] => .pure rfl
  | expr :: exprs =>
    .bind (finds_checkExpr site locals loops expr) fun _ =>
      .bind (finds_checkExprs site locals loops exprs) fun _ => .pure rfl

end

theorem finds_checkOptExpr (site : Site) (locals : Scopes Ty) (loops : Nat)
    (expr : Option Expr) :
    Finds locals loops Prod.snd (FrameM.ofOptExpr site expr) (checkOptExpr site locals expr) := by
  cases expr with
  | none => exact .pure rfl
  | some expr => exact .bind (finds_checkExpr site locals loops expr) fun _ => .pure rfl

theorem finds_checkReturn (site : Site) (returns : Option Ty) (locals : Scopes Ty)
    (loops line : Nat) (value : Option Expr) :
    Finds locals loops (fun _ => ()) (FrameM.ofReturn site returns line value)
      (checkReturn site returns locals line value) := by
  cases returns with
  | none =>
      rw [FrameM.ofReturn, checkReturn]
      exact .answer (confined_report allowsRules_true _ rfl) fun _ => .pure rfl
  | some returns =>
      exact .bind (finds_checkOptExpr site locals loops value) fun _ =>
        .answer (confined_requireResult allowsRules_true _ _) fun _ => .pure rfl

end Finds

/-! ## The two ways to check a statement -/

section Mirrors

open Site

variable {α β γ : Type} {locals : Scopes Ty} {loops : Nat}

/-- Steps and a check, begun with a number of loops, have ended in the same way. If they were
stopped it does not matter which loops they were in. -/
structure Matches (loops : Nat) (ended : Except Failure Unit × Frame)
    (checked : (α × Scopes Ty) × Pass) : Prop where
  outcome : ended.1 = checked.2.outcome
  log : ended.2.log = checked.2.log
  locals : ended.2.locals = checked.1.2
  loops : checked.2.stopped = false → ended.2.loops = loops

namespace Matches

variable {ended : Except Failure Unit × Frame} {checked : (α × Scopes Ty) × Pass}

theorem eq_of_running (hmatches : Matches loops ended checked)
    (hrunning : checked.2.stopped = false) :
    ended = (.ok (), ⟨checked.2.log, checked.1.2, loops⟩) := by
  refine Prod.ext ?_ ?_
  · exact hmatches.outcome.trans (Pass.outcome_of_running hrunning)
  · rw [← hmatches.log, ← hmatches.locals, ← hmatches.loops hrunning]

theorem eq_of_stopped (hmatches : Matches loops ended checked)
    (hstopped : checked.2.stopped = true) :
    ended = (.error (.tooMany checked.2.log.limit), ended.2) :=
  Prod.ext (hmatches.outcome.trans (Pass.outcome_of_stopped hstopped)) rfl

/-- What does nothing more after a stop ends in the same way. -/
theorem of_stopped (hmatches : Matches loops ended checked) (hstopped : checked.2.stopped = true)
    {others : Nat} {other : (β × Scopes Ty) × Pass} (hpass : other.2 = checked.2)
    (hlocals : other.1.2 = checked.1.2) : Matches others ended other where
  outcome := hmatches.outcome.trans (congrArg Pass.outcome hpass.symm)
  log := hmatches.log.trans (congrArg Pass.log hpass.symm)
  locals := hmatches.locals.trans hlocals.symm
  loops hrunning := by
    rw [hpass, hstopped] at hrunning
    cases hrunning

end Matches

/-- The steps do to each frame with these scopes and loops what the check does. On a pass that
is stopped the check does nothing, as steps that are not taken. -/
structure Mirrors (locals : Scopes Ty) (loops : Nat) (steps : FrameM Unit)
    (check : CheckM (α × Scopes Ty)) : Prop where
  ends : ∀ log, Matches loops (steps.runOn ⟨log, locals, loops⟩) (check.runOn log)
  idle : ∀ pass, pass.stopped = true → (check.run pass).2 = pass ∧ (check.run pass).1.2 = locals

namespace Mirrors

variable {steps rest : FrameM Unit} {check : CheckM (α × Scopes Ty)}
  {next : α × Scopes Ty → CheckM (β × Scopes Ty)}

theorem pure (piece : α) : Mirrors locals loops (Pure.pure ()) (Pure.pure (piece, locals)) where
  ends _ := ⟨rfl, rfl, rfl, fun _ => rfl⟩
  idle _ _ := ⟨rfl, rfl⟩

/-- What follows goes on with the scopes of the check, seen in some way. -/
theorem bind_view {view : Scopes Ty → Scopes Ty}
    (hcheck : Mirrors locals loops steps (Prod.map id view <$> check))
    (hnext : ∀ piece after, Mirrors (view after) loops rest (next (piece, after))) :
    Mirrors locals loops (steps >>= fun _ => rest) (check >>= next) where
  ends log := by
    have hends := hcheck.ends log
    have hrest := hnext (check.runOn log).1.1 (check.runOn log).1.2
    cases hstopped : (check.runOn log).2.stopped with
    | false =>
        rw [FrameM.runOn_bind_of_ok (hends.eq_of_running hstopped), runOn_bind_of_running hstopped]
        exact hrest.ends _
    | true =>
        obtain ⟨hpass, hlocals⟩ := hrest.idle _ hstopped
        rw [FrameM.runOn_bind_of_error (hends.eq_of_stopped hstopped),
          ← hends.eq_of_stopped hstopped]
        exact hends.of_stopped hstopped hpass hlocals
  idle pass hstopped := by
    have hpass : (check.run pass).2 = pass := (hcheck.idle pass hstopped).1
    have hlocals : view (check.run pass).1.2 = locals := (hcheck.idle pass hstopped).2
    show ((next (check.run pass).1).run (check.run pass).2).2 = pass ∧
      ((next (check.run pass).1).run (check.run pass).2).1.2 = locals
    rw [hpass, ← hlocals]
    exact (hnext _ _).idle pass hstopped

theorem bind (hcheck : Mirrors locals loops steps check)
    (hnext : ∀ piece after, Mirrors after loops rest (next (piece, after))) :
    Mirrors locals loops (steps >>= fun _ => rest) (check >>= next) :=
  have hseen : Mirrors locals loops steps (Prod.map id id <$> check) := ⟨hcheck.ends, hcheck.idle⟩
  hseen.bind_view hnext

theorem of_bind_pure (hcheck : Mirrors locals loops (steps >>= fun _ => Pure.pure ()) check) :
    Mirrors locals loops steps check := by
  rwa [bind_pure_unit] at hcheck

/-- Whatever the steps in a scope do to that scope, it is closed. -/
theorem inScope (hcheck : Mirrors locals.enter loops steps check) :
    Mirrors locals loops steps.inScope (Prod.map id Scopes.leave <$> check) where
  ends log := by
    have hends := hcheck.ends log
    rw [FrameM.runOn_inScope]
    exact ⟨hends.outcome, hends.log, congrArg Scopes.leave hends.locals, hends.loops⟩
  idle pass hstopped := by
    obtain ⟨hpass, hlocals⟩ := hcheck.idle pass hstopped
    exact ⟨hpass, congrArg Scopes.leave hlocals⟩

/-- The count of loops is taken back, unless the steps inside the loop are stopped. -/
theorem inLoop (hcheck : Mirrors locals (loops + 1) steps check) :
    Mirrors locals loops steps.inLoop check where
  ends log := by
    have hends := hcheck.ends log
    rw [FrameM.runOn_inLoop]
    cases hstopped : (check.runOn log).2.stopped with
    | false =>
        rw [FrameM.runOn_bind_of_ok (hends.eq_of_running hstopped)]
        exact ⟨(Pass.outcome_of_running hstopped).symm, rfl, rfl, fun _ => rfl⟩
    | true =>
        rw [FrameM.runOn_bind_of_error (hends.eq_of_stopped hstopped),
          ← hends.eq_of_stopped hstopped]
        exact hends.of_stopped hstopped rfl rfl
  idle := hcheck.idle

theorem bind_finds {view : α → γ} {steps : FrameM γ} {rest : γ → FrameM Unit} {check : CheckM α}
    {next : α → CheckM (β × Scopes Ty)} (hsteps : Finds locals loops view steps check)
    (hnext : ∀ value, Mirrors locals loops (rest (view value)) (next value)) :
    Mirrors locals loops (steps >>= rest) (check >>= next) where
  ends log := by
    have hrest := hnext (check.runOn log).1
    cases hstopped : (check.runOn log).2.stopped with
    | false =>
        rw [FrameM.runOn_bind_of_ok (hsteps.eq_of_running hstopped),
          runOn_bind_of_running hstopped]
        exact hrest.ends _
    | true =>
        obtain ⟨hpass, hlocals⟩ := hrest.idle _ hstopped
        rw [FrameM.runOn_bind_of_error (hsteps.eq_of_stopped hstopped)]
        exact ⟨(congrArg Pass.outcome hpass).trans (Pass.outcome_of_stopped hstopped) |>.symm,
          congrArg Pass.log hpass.symm, hlocals.symm, fun _ => rfl⟩
  idle pass hstopped := by
    show ((next (check.run pass).1).run (check.run pass).2).2 = pass ∧
      ((next (check.run pass).1).run (check.run pass).2).1.2 = locals
    rw [hsteps.reporting.idle hstopped]
    exact (hnext _).idle pass hstopped

theorem of_finds {view : α → Unit} {check : CheckM α} {next : α → CheckM (β × Scopes Ty)}
    (hsteps : Finds locals loops view steps check)
    (hnext : ∀ value, Mirrors locals loops (Pure.pure ()) (next value)) :
    Mirrors locals loops steps (check >>= next) :=
  of_bind_pure (bind_finds hsteps hnext)

theorem inScope_bind (hcheck : Mirrors locals.enter loops steps check)
    (hnext : ∀ piece after, Mirrors (Scopes.leave after) loops rest (next (piece, after))) :
    Mirrors locals loops (steps.inScope >>= fun _ => rest) (check >>= next) :=
  hcheck.inScope.bind_view hnext

theorem inScope_map (hcheck : Mirrors locals.enter loops steps check)
    (hnext : ∀ piece after,
      Mirrors (Scopes.leave after) loops (Pure.pure ()) (next (piece, after))) :
    Mirrors locals loops steps.inScope (check >>= next) :=
  of_bind_pure (hcheck.inScope_bind hnext)

end Mirrors

theorem mirrors_declare (site : Site) (line : Nat) (name : String) (type : Ty) (piece : α) :
    Mirrors locals loops (FrameM.declare site line name type)
      (declareLocal site locals line name type >>= fun after => pure (piece, after)) := by
  unfold declareLocal
  cases hpeek : (locals.peek name).isSome with
  | true =>
      have hreport : Mirrors locals loops
          (FrameM.ofCheck fun _ _ => site.report line (.redeclared name))
          (site.report line (.redeclared name) >>= fun _ => pure (piece, locals)) :=
        .of_finds (.rule (confined_report allowsRules_true _ rfl)) fun _ => .pure piece
      refine ⟨fun log => ?_, hreport.idle⟩
      show Matches loops ((ite _ _ _ : FrameM Unit).runOn ⟨log, locals, loops⟩) _
      rw [hpeek]
      exact hreport.ends log
  | false =>
      refine ⟨fun log => ?_, fun pass hstopped => ?_⟩
      · show Matches loops ((ite _ _ _ : FrameM Unit).runOn ⟨log, locals, loops⟩) _
        rw [hpeek]
        exact ⟨rfl, rfl, rfl, fun _ => rfl⟩
      · refine ⟨rfl, ?_⟩
        show (if pass.stopped = true then locals else locals.add name type) = locals
        rw [if_pos hstopped]

variable (site : Site) (returns : Option Ty)

mutual

theorem mirrors_checkStmt (loops : Nat) (locals : Scopes Ty) : (stmt : Stmt) →
    Mirrors locals loops (FrameM.ofStmt site returns stmt)
      (checkStmt site returns loops locals stmt)
  | .expr subject => .bind_finds (finds_checkExpr site locals loops subject) fun _ => .pure _
  | .decl _ _ init _ =>
    .bind_finds (.rule (confined_writtenType allowsRules_true _ _)) fun _ =>
      .bind_finds (finds_checkOptExpr site locals loops init) fun _ =>
        .bind_finds (.rule (confined_requireInit allowsRules_true _ _ _)) fun _ =>
          mirrors_declare ..
  | .ret value line =>
    .of_finds (finds_checkReturn site returns locals loops line value) fun _ => .pure _
  | .ifThen cond body _ =>
    .bind_finds (finds_checkExpr site locals loops cond) fun _ =>
      .bind_finds (.rule (confined_require allowsRules_true _ _ rfl)) fun _ =>
        .inScope_map (mirrors_checkStmt loops locals.enter body) fun _ _ => .pure _
  | .ifElse cond body other _ =>
    .bind_finds (finds_checkExpr site locals loops cond) fun _ =>
      .bind_finds (.rule (confined_require allowsRules_true _ _ rfl)) fun _ =>
        .inScope_bind (mirrors_checkStmt loops locals.enter body) fun _ after =>
          .inScope_map (mirrors_checkStmt loops after.leave.enter other) fun _ _ => .pure _
  | .whileLoop cond body _ =>
    .bind_finds (finds_checkExpr site locals loops cond) fun _ =>
      .bind_finds (.rule (confined_require allowsRules_true _ _ rfl)) fun _ =>
        .inScope_map (mirrors_checkStmt (loops + 1) locals.enter body).inLoop fun _ _ => .pure _
  | .forLoop init cond update body _ =>
    .bind_finds (finds_checkOptExpr site locals loops init) fun _ =>
      .bind_finds (finds_checkOptExpr site locals loops cond) fun _ =>
        .bind_finds (.rule (confined_requirePredicate allowsRules_true _ _)) fun _ =>
          .bind_finds (finds_checkOptExpr site locals loops update) fun _ =>
            .inScope_map (mirrors_checkStmt (loops + 1) locals.enter body).inLoop fun _ _ => .pure _
  | .block body _ =>
    .inScope_map (mirrors_checkStmts loops locals.enter body) fun _ _ => .pure _
  | .breakLoop _ =>
    .of_finds (.rule (.ite (fun _ => .pure _) fun _ => .report trivial)) fun _ => .pure _

theorem mirrors_checkStmts (loops : Nat) (locals : Scopes Ty) : (stmts : List Stmt) →
    Mirrors locals loops (FrameM.ofStmts site returns stmts)
      (checkStmts site returns loops locals stmts)
  | [] => .pure _
  | stmt :: stmts =>
    .bind (mirrors_checkStmt loops locals stmt) fun _ after =>
      .of_bind_pure (.bind (mirrors_checkStmts loops after stmts) fun _ _ => .pure _)

end

end Mirrors

end Typing

end ClassLang
