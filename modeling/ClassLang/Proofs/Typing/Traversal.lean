/-
# One walk over all checks

Much of what is shown of the check of an expression has the same proof for each of its forms:
the parts are checked one after the other, rules are asked about the types that are found, and
at the end the type is written into the expression. Here the walk is made once, for whatever
can be said of a check by way of its steps. A survey lists what has to be known for that: what
holds of steps that end at once, of one step after another and of a rule, and how an expression
follows from its form. Statements need to know in addition how they leave the variables.
-/

import ClassLang.Proofs.Typing.Confinement
import ClassLang.Proofs.Typing.Rules

namespace ClassLang.Typing

open CheckM

/-! ## Expressions -/

/-- What can be said of the checks of expressions from their steps. -/
structure Survey (site : Site) where
  /-- What is said of a check: for what is given, its result is as shown. -/
  Holds : {α : Type} → (given : Prop) → CheckM α → (shown : α → Prop) → Prop
  /-- The records that rules may report. -/
  Allowed : Diagnostic → Prop
  /-- The types that may be written in a program. -/
  MayWrite : Ty → Prop
  /-- The variables that there may be. -/
  Fits : Scopes Ty → Prop
  /-- What is shown of each expression once it is checked. -/
  Good : Expr → Prop
  pure : ∀ {α : Type} {given : Prop} {value : α} {shown : α → Prop}, (given → shown value) →
    Holds given (Pure.pure value) shown
  bind : ∀ {α β : Type} {given : Prop} {check : CheckM α} {next : α → CheckM β}
    {shown : α → Prop} {after : β → Prop}, Holds given check shown →
      (∀ value, Holds (given ∧ shown value) (next value) after) → Holds given (check >>= next) after
  /-- Nothing has to be shown of what a rule answers. -/
  rule : ∀ {α : Type} {given : Prop} {check : CheckM α}, Confined Allowed check →
    Holds given check fun _ => True
  node : ∀ {given : Prop} {locals : Scopes Ty} {form : Form} {line : Nat} {slot : Option Ty},
    (given → Fits locals) → (∀ written ∈ form.writtenTypes, MayWrite written) →
      Holds given (checkForm site locals line form) (fun result =>
        result.1.isCall = form.isCall ∧ ∀ node ∈ result.1.nodes, Good node) →
      Holds given (checkExpr site locals (.node form line slot)) fun result =>
        ∀ node ∈ result.1.nodes, Good node

namespace Survey

variable {site : Site} (survey : Survey site) {given : Prop} {locals : Scopes Ty}

theorem bind_rule {α β : Type} {check : CheckM α} {next : α → CheckM β} {after : β → Prop}
    (hcheck : Confined survey.Allowed check)
    (hnext : ∀ value, survey.Holds given (next value) after) :
    survey.Holds given (check >>= next) after := by
  apply survey.bind (survey.rule hcheck)
  intro value
  rw [and_true]
  exact hnext value

mutual

theorem ofExpr {given : Prop} (hlocals : given → survey.Fits locals) : (expr : Expr) →
    (∀ node ∈ expr.nodes, site.AllowsRules survey.Allowed node.line) →
    (∀ written ∈ expr.writtenTypes, survey.MayWrite written) →
      survey.Holds given (checkExpr site locals expr) fun result =>
        ∀ node ∈ result.1.nodes, survey.Good node
  | .node form _ _, hnodes, hwritten =>
    have hparts := List.forall_mem_cons.mp hnodes
    survey.node hlocals hwritten (ofForm hlocals hparts.1 form hparts.2 hwritten)

theorem ofForm {given : Prop} (hlocals : given → survey.Fits locals) {line : Nat}
    (hline : site.AllowsRules survey.Allowed line) : (form : Form) →
    (∀ node ∈ form.nodes, site.AllowsRules survey.Allowed node.line) →
    (∀ written ∈ form.writtenTypes, survey.MayWrite written) →
      survey.Holds given (checkForm site locals line form) fun result =>
        result.1.isCall = form.isCall ∧ ∀ node ∈ result.1.nodes, survey.Good node
  | .call _ args, hnodes, hwritten =>
    survey.bind (ofExprs hlocals args hnodes hwritten) fun _ =>
      survey.bind_rule (Site.confined_callType hline _ _ _) fun _ =>
        survey.pure fun ⟨_, hargs⟩ => ⟨rfl, hargs⟩
  | .callOn receiver _ args, hnodes, hwritten =>
    have hparts := List.forall_mem_append.mp hnodes
    have htypes := List.forall_mem_append.mp hwritten
    survey.bind (ofExpr hlocals receiver hparts.1 htypes.1) fun _ =>
      survey.bind_rule (Site.confined_receiverClass hline _ _) fun _ =>
        survey.bind (ofExprs (fun ⟨hgiven, _⟩ => hlocals hgiven) args hparts.2 htypes.2) fun _ =>
          survey.bind_rule (Site.confined_callTypeOn hline _ _ _) fun _ =>
            survey.pure fun ⟨⟨_, hreceiver⟩, hargs⟩ =>
              ⟨rfl, List.forall_mem_append.mpr ⟨hreceiver, hargs⟩⟩
  | .new _, _, _ =>
    survey.bind_rule (Site.confined_newType hline _) fun _ => survey.pure fun _ => ⟨rfl, nofun⟩
  | .newArray _ size, hnodes, hwritten =>
    have htypes := List.forall_mem_cons.mp hwritten
    survey.bind (ofExpr hlocals size hnodes htypes.2) fun _ =>
      survey.bind_rule (Site.confined_newArrayType hline _ _) fun _ =>
        survey.pure fun ⟨_, hsize⟩ => ⟨rfl, hsize⟩
  | .instanceOf subject _, hnodes, hwritten =>
    have htypes := List.forall_mem_cons.mp hwritten
    survey.bind (ofExpr hlocals subject hnodes htypes.2) fun _ =>
      survey.bind_rule (Site.confined_instanceOfType hline _ _) fun _ =>
        survey.pure fun ⟨_, hsubject⟩ => ⟨rfl, hsubject⟩
  | .cast _ subject, hnodes, hwritten =>
    have htypes := List.forall_mem_cons.mp hwritten
    survey.bind (ofExpr hlocals subject hnodes htypes.2) fun _ =>
      survey.bind_rule (Site.confined_castType hline _ _) fun _ =>
        survey.pure fun ⟨_, hsubject⟩ => ⟨rfl, hsubject⟩
  | .assign _ _ value, hnodes, hwritten =>
    survey.bind_rule (Site.confined_targetType hline _ _ _) fun _ =>
      survey.bind (ofExpr hlocals value hnodes hwritten) fun _ =>
        survey.bind_rule (Site.confined_requireCompatible hline _ _ _) fun _ =>
          survey.pure fun ⟨_, hvalue⟩ => ⟨rfl, hvalue⟩
  | .assignElem _ _ index value, hnodes, hwritten =>
    have hparts := List.forall_mem_append.mp hnodes
    have htypes := List.forall_mem_append.mp hwritten
    survey.bind_rule (Site.confined_targetType hline _ _ _) fun _ =>
      survey.bind (ofExpr hlocals index hparts.1 htypes.1) fun _ =>
        survey.bind_rule (Site.confined_require hline _ _ rfl) fun _ =>
          survey.bind (ofExpr (fun ⟨hgiven, _⟩ => hlocals hgiven) value hparts.2 htypes.2) fun _ =>
            survey.bind_rule (Site.confined_elemType hline _ _) fun _ =>
              survey.bind_rule (Site.confined_requireCompatible hline _ _ _) fun _ =>
                survey.pure fun ⟨⟨_, hindex⟩, hvalue⟩ =>
                  ⟨rfl, List.forall_mem_append.mpr ⟨hindex, hvalue⟩⟩
  | .binary _ left right, hnodes, hwritten =>
    have hparts := List.forall_mem_append.mp hnodes
    have htypes := List.forall_mem_append.mp hwritten
    survey.bind (ofExpr hlocals left hparts.1 htypes.1) fun _ =>
      survey.bind (ofExpr (fun ⟨hgiven, _⟩ => hlocals hgiven) right hparts.2 htypes.2) fun _ =>
        survey.bind_rule (Site.confined_binaryType hline _ _ _) fun _ =>
          survey.pure fun ⟨⟨_, hleft⟩, hright⟩ =>
            ⟨rfl, List.forall_mem_append.mpr ⟨hleft, hright⟩⟩
  | .unary _ operand, hnodes, hwritten =>
    survey.bind (ofExpr hlocals operand hnodes hwritten) fun _ =>
      survey.bind_rule (Site.confined_unaryType hline _ _ _) fun _ =>
        survey.pure fun ⟨_, hoperand⟩ => ⟨rfl, hoperand⟩
  | .var _, _, _ =>
    survey.bind_rule (Site.confined_nameType hline _ _) fun _ =>
      survey.pure fun _ => ⟨rfl, nofun⟩
  | .field object _, hnodes, hwritten =>
    survey.bind (ofExpr hlocals object hnodes hwritten) fun _ =>
      survey.bind_rule (Site.confined_accessType hline _ _) fun _ =>
        survey.pure fun ⟨_, hobject⟩ => ⟨rfl, hobject⟩
  | .elem _ index, hnodes, hwritten =>
    survey.bind_rule (Site.confined_nameType hline _ _) fun _ =>
      survey.bind (ofExpr hlocals index hnodes hwritten) fun _ =>
        survey.bind_rule (Site.confined_require hline _ _ rfl) fun _ =>
          survey.bind_rule (Site.confined_elemType hline _ _) fun _ =>
            survey.pure fun ⟨_, hindex⟩ => ⟨rfl, hindex⟩
  | .fieldElem object _ index, hnodes, hwritten =>
    have hparts := List.forall_mem_append.mp hnodes
    have htypes := List.forall_mem_append.mp hwritten
    survey.bind (ofExpr hlocals object hparts.1 htypes.1) fun _ =>
      survey.bind_rule (Site.confined_accessType hline _ _) fun _ =>
        survey.bind (ofExpr (fun ⟨hgiven, _⟩ => hlocals hgiven) index hparts.2 htypes.2) fun _ =>
          survey.bind_rule (Site.confined_require hline _ _ rfl) fun _ =>
            survey.bind_rule (Site.confined_elemType hline _ _) fun _ =>
              survey.pure fun ⟨⟨_, hobject⟩, hindex⟩ =>
                ⟨rfl, List.forall_mem_append.mpr ⟨hobject, hindex⟩⟩
  | .int _, _, _ | .bool _, _, _ | .str _, _, _ | .null, _, _ =>
    survey.pure fun _ => ⟨rfl, nofun⟩

theorem ofExprs {given : Prop} (hlocals : given → survey.Fits locals) : (exprs : List Expr) →
    (∀ node ∈ Expr.listNodes exprs, site.AllowsRules survey.Allowed node.line) →
    (∀ written ∈ Expr.listWrittenTypes exprs, survey.MayWrite written) →
      survey.Holds given (checkExprs site locals exprs) fun result =>
        ∀ node ∈ Expr.listNodes result.1, survey.Good node
  | [], _, _ => survey.pure fun _ => nofun
  | expr :: exprs, hnodes, hwritten =>
    have hparts := List.forall_mem_append.mp hnodes
    have htypes := List.forall_mem_append.mp hwritten
    survey.bind (ofExpr hlocals expr hparts.1 htypes.1) fun _ =>
      survey.bind (ofExprs (fun ⟨hgiven, _⟩ => hlocals hgiven) exprs hparts.2 htypes.2) fun _ =>
        survey.pure fun ⟨⟨_, hexpr⟩, hexprs⟩ => List.forall_mem_append.mpr ⟨hexpr, hexprs⟩

end

theorem ofOptExpr (hlocals : given → survey.Fits locals) {expr : Option Expr}
    (hnodes : ∀ node ∈ Expr.optNodes expr, site.AllowsRules survey.Allowed node.line)
    (hwritten : ∀ written ∈ Expr.optWrittenTypes expr, survey.MayWrite written) :
    survey.Holds given (checkOptExpr site locals expr) fun result =>
      ∀ node ∈ Expr.optNodes result.1, survey.Good node := by
  cases expr with
  | none => exact survey.pure fun _ => nofun
  | some expr =>
      apply survey.bind (survey.ofExpr hlocals expr hnodes hwritten)
      intro result
      exact survey.pure fun ⟨_, hexpr⟩ => hexpr

end Survey

/-! ## Statements -/

/-- What can be said of the checks of statements from their steps. It has to be known that
the variables that a statement leaves behind are such as there may be, and so are those that
are there again once the scope around it is closed. -/
structure StmtSurvey (site : Site) extends Survey site where
  returns : Ty
  enter : ∀ {locals : Scopes Ty}, Fits locals → Fits locals.enter
  leaves : ∀ {given : Prop} {loops : Nat} {locals : Scopes Ty} {stmt : Stmt}
    {shown : Stmt × Scopes Ty → Prop}, (given → Fits locals) →
      (∀ written ∈ stmt.writtenTypes, MayWrite written) →
      Holds given (checkStmt site (some returns) loops locals stmt) shown →
      Holds given (checkStmt site (some returns) loops locals stmt) fun result =>
        shown result ∧ Fits result.2
  closes : ∀ {given : Prop} {loops : Nat} {locals : Scopes Ty} {stmt : Stmt}
    {shown : Stmt × Scopes Ty → Prop}, (given → Fits locals) →
      (∀ written ∈ stmt.writtenTypes, MayWrite written) →
      Holds given (checkStmt site (some returns) loops locals.enter stmt) shown →
      Holds given (checkStmt site (some returns) loops locals.enter stmt) fun result =>
        shown result ∧ Fits result.2.leave

namespace StmtSurvey

variable {site : Site} (survey : StmtSurvey site) {given : Prop} {locals : Scopes Ty}

theorem ofSubject (hlocals : given → survey.Fits locals) {expr : Expr}
    (hlines : ∀ line ∈ Expr.linesOf expr.nodes, site.AllowsAt survey.Allowed line)
    (hwritten : ∀ written ∈ expr.writtenTypes, survey.MayWrite written) :
    survey.Holds given (checkExpr site locals expr) fun result =>
      ∀ node ∈ result.1.nodes, survey.Good node :=
  survey.ofExpr hlocals expr (fun node hnode => (List.forall_mem_map.mp hlines node hnode).rules)
    hwritten

theorem ofOptSubject (hlocals : given → survey.Fits locals) {expr : Option Expr}
    (hlines : ∀ line ∈ Expr.linesOf (Expr.optNodes expr), site.AllowsAt survey.Allowed line)
    (hwritten : ∀ written ∈ Expr.optWrittenTypes expr, survey.MayWrite written) :
    survey.Holds given (checkOptExpr site locals expr) fun result =>
      ∀ node ∈ Expr.optNodes result.1, survey.Good node :=
  survey.ofOptExpr hlocals (fun node hnode => (List.forall_mem_map.mp hlines node hnode).rules)
    hwritten

mutual

theorem ofStmt {given : Prop} {locals : Scopes Ty} (hlocals : given → survey.Fits locals)
    (loops : Nat) : (stmt : Stmt) →
    (∀ line ∈ stmt.lines, site.AllowsAt survey.Allowed line) →
    (∀ written ∈ stmt.writtenTypes, survey.MayWrite written) →
      survey.Holds given (checkStmt site (some survey.returns) loops locals stmt) fun result =>
        ∀ node ∈ result.1.nodes, survey.Good node
  | .expr _, hlines, hwritten =>
    survey.bind (survey.ofSubject hlocals hlines hwritten) fun _ =>
      survey.pure fun ⟨_, hsubject⟩ => hsubject
  | .decl _ _ _ _, hlines, hwritten =>
    have hparts := List.forall_mem_cons.mp hlines
    have htypes := List.forall_mem_cons.mp hwritten
    survey.bind_rule (Site.confined_writtenType hparts.1.rules _ _) fun _ =>
      survey.bind (survey.ofOptSubject hlocals hparts.2 htypes.2) fun _ =>
        survey.bind_rule (Site.confined_requireInit hparts.1.rules _ _ _) fun _ =>
          survey.bind_rule (confined_declareLocal _ hparts.1.rules _ _) fun _ =>
            survey.pure fun ⟨_, hinit⟩ => hinit
  | .ret _ _, hlines, hwritten =>
    have hparts := List.forall_mem_cons.mp hlines
    survey.bind
      (survey.bind (survey.ofOptSubject hlocals hparts.2 hwritten) fun _ =>
        survey.bind_rule (Site.confined_requireResult hparts.1.rules _ _) fun _ =>
          survey.pure fun ⟨_, hvalue⟩ => hvalue) fun _ =>
      survey.pure fun ⟨_, hvalue⟩ => hvalue
  | .ifThen _ body _, hlines, hwritten =>
    have hparts := List.forall_mem_cons.mp hlines
    have hinner := List.forall_mem_append.mp hparts.2
    have htypes := List.forall_mem_append.mp hwritten
    survey.bind (survey.ofSubject hlocals hinner.1 htypes.1) fun _ =>
      survey.bind_rule (Site.confined_require hparts.1.rules _ _ rfl) fun _ =>
        survey.bind (ofStmt (fun ⟨hgiven, _⟩ => survey.enter (hlocals hgiven)) loops body hinner.2
          htypes.2) fun _ =>
          survey.pure fun ⟨⟨_, hcond⟩, hbody⟩ => List.forall_mem_append.mpr ⟨hcond, hbody⟩
  | .ifElse _ body other _, hlines, hwritten =>
    have hparts := List.forall_mem_cons.mp hlines
    have hinner := List.forall_mem_append.mp hparts.2
    have hfirst := List.forall_mem_append.mp hinner.1
    have htypes := List.forall_mem_append.mp hwritten
    have hfirstTypes := List.forall_mem_append.mp htypes.1
    survey.bind (survey.ofSubject hlocals hfirst.1 hfirstTypes.1) fun _ =>
      survey.bind_rule (Site.confined_require hparts.1.rules _ _ rfl) fun _ =>
        survey.bind (survey.closes (fun ⟨hgiven, _⟩ => hlocals hgiven) hfirstTypes.2
          (ofStmt (fun ⟨hgiven, _⟩ => survey.enter (hlocals hgiven)) loops body hfirst.2
            hfirstTypes.2)) fun _ =>
          survey.bind (ofStmt (fun ⟨_, _, hclosed⟩ => survey.enter hclosed) loops other hinner.2
            htypes.2) fun _ =>
            survey.pure fun ⟨⟨⟨_, hcond⟩, hbody, _⟩, hother⟩ => List.forall_mem_append.mpr
              ⟨List.forall_mem_append.mpr ⟨hcond, hbody⟩, hother⟩
  | .whileLoop _ body _, hlines, hwritten =>
    have hparts := List.forall_mem_cons.mp hlines
    have hinner := List.forall_mem_append.mp hparts.2
    have htypes := List.forall_mem_append.mp hwritten
    survey.bind (survey.ofSubject hlocals hinner.1 htypes.1) fun _ =>
      survey.bind_rule (Site.confined_require hparts.1.rules _ _ rfl) fun _ =>
        survey.bind (ofStmt (fun ⟨hgiven, _⟩ => survey.enter (hlocals hgiven)) (loops + 1) body
          hinner.2 htypes.2) fun _ =>
          survey.pure fun ⟨⟨_, hcond⟩, hbody⟩ => List.forall_mem_append.mpr ⟨hcond, hbody⟩
  | .forLoop _ _ _ body _, hlines, hwritten =>
    have hparts := List.forall_mem_cons.mp hlines
    have hinner := List.forall_mem_append.mp hparts.2
    have hhead := List.forall_mem_append.mp hinner.1
    have hstart := List.forall_mem_append.mp hhead.1
    have htypes := List.forall_mem_append.mp hwritten
    have hheadTypes := List.forall_mem_append.mp htypes.1
    have hstartTypes := List.forall_mem_append.mp hheadTypes.1
    survey.bind (survey.ofOptSubject hlocals hstart.1 hstartTypes.1) fun _ =>
      survey.bind (survey.ofOptSubject (fun ⟨hgiven, _⟩ => hlocals hgiven) hstart.2
        hstartTypes.2) fun _ =>
        survey.bind_rule (Site.confined_requirePredicate hparts.1.rules _ _) fun _ =>
          survey.bind (survey.ofOptSubject (fun ⟨⟨hgiven, _⟩, _⟩ => hlocals hgiven) hhead.2
            hheadTypes.2) fun _ =>
            survey.bind (ofStmt (fun ⟨⟨⟨hgiven, _⟩, _⟩, _⟩ => survey.enter (hlocals hgiven))
              (loops + 1) body hinner.2 htypes.2) fun _ =>
              survey.pure fun ⟨⟨⟨⟨_, hinit⟩, hcond⟩, hupdate⟩, hbody⟩ => by
                simp only [Stmt.nodes, List.forall_mem_append]
                exact ⟨⟨⟨hinit, hcond⟩, hupdate⟩, hbody⟩
  | .block body _, hlines, hwritten =>
    have hparts := List.forall_mem_cons.mp hlines
    survey.bind (ofStmts (fun hgiven => survey.enter (hlocals hgiven)) loops body hparts.2 hwritten)
      fun _ => survey.pure fun ⟨_, hbody⟩ => hbody
  | .breakLoop _, hlines, _ =>
    survey.bind_rule (.ite (fun _ => .pure _) fun _ =>
      .report (List.forall_mem_singleton.mp hlines _)) fun _ => survey.pure fun _ => nofun

theorem ofStmts {given : Prop} {locals : Scopes Ty} (hlocals : given → survey.Fits locals)
    (loops : Nat) : (stmts : List Stmt) →
    (∀ line ∈ Stmt.listLines stmts, site.AllowsAt survey.Allowed line) →
    (∀ written ∈ Stmt.listWrittenTypes stmts, survey.MayWrite written) →
      survey.Holds given (checkStmts site (some survey.returns) loops locals stmts) fun result =>
        ∀ node ∈ Stmt.listNodes result.1, survey.Good node
  | [], _, _ => survey.pure fun _ => nofun
  | stmt :: stmts, hlines, hwritten =>
    have hparts := List.forall_mem_append.mp hlines
    have htypes := List.forall_mem_append.mp hwritten
    survey.bind (survey.leaves hlocals htypes.1 (ofStmt hlocals loops stmt hparts.1 htypes.1))
      fun _ => survey.bind (ofStmts (fun ⟨_, _, hfits⟩ => hfits) loops stmts hparts.2 htypes.2)
        fun _ => survey.pure fun ⟨⟨_, hstmt, _⟩, hstmts⟩ =>
          List.forall_mem_append.mpr ⟨hstmt, hstmts⟩

end

end StmtSurvey

end ClassLang.Typing
