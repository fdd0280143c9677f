/-
# Typing statements

Statements are checked in order, each in the scopes that those before it leave
behind. Only a declaration leaves a name behind; branches, loop bodies and blocks
have a scope of their own. A loop is a place to break out of for everything
inside it.
-/

import ClassLang.Source.Stmt
import ClassLang.Typing.Expr

namespace ClassLang.Typing

/-- Check an expression that may be absent. -/
def checkOptExpr (site : Site) (locals : Scopes Ty) :
    Option Expr → CheckM (Option Expr × Option Ty)
  | none => return (none, none)
  | some expr => do
    let (expr, found) ← checkExpr site locals expr
    return (some expr, some found)

/-- The value of a declaration has to suit the declared type, if there is one. -/
def Site.requireInit (site : Site) (line : Nat) (use : Use) (expected : Ty) :
    Option Ty → CheckM Unit
  | none => return
  | some found => site.requireCompatible line use expected found

/-- Declare a variable in the innermost scope, which must not have it yet. -/
def declareLocal (site : Site) (locals : Scopes Ty) (line : Nat) (name : String) (type : Ty) :
    CheckM (Scopes Ty) := do
  if (locals.peek name).isSome then
    site.report line (.redeclared name)
    return locals
  else CheckM.unlessStopped locals (locals.add name type)

/-- The rule on what a method with the given return type returns. -/
def Site.requireResult (site : Site) (line : Nat) (returns : Ty) (found : Option Ty) :
    CheckM Unit := do
  match found with
  | none => site.require (returns == .void) line (.missingValue returns)
  | some found =>
    if returns = .void then site.report line .unwantedValue
    else if site.hierarchy.validType true returns then
      site.requireCompatible line .result returns found
    else return

/-- Check the value of a return statement against the type that the method around it returns.
Outside of a method the statement is reported, and its value is not looked at. -/
def checkReturn (site : Site) (returns : Option Ty) (locals : Scopes Ty) (line : Nat)
    (value : Option Expr) : CheckM (Option Expr) := do
  match returns with
  | none =>
    site.report line .strayReturn
    return value
  | some returns =>
    let (value, found) ← checkOptExpr site locals value
    site.requireResult line returns found
    return value

/-- The predicate of a loop, if there is one, has to be a boolean. -/
def Site.requirePredicate (site : Site) (line : Nat) (construct : Construct) :
    Option Ty → CheckM Unit
  | none => return
  | some found => site.requireBoolean line construct found

mutual

/-- Check a statement inside `loops` loops of a method that returns `returns`, if there is a
method around it. The result holds the scopes for the statements that follow. -/
def checkStmt (site : Site) (returns : Option Ty) (loops : Nat) (locals : Scopes Ty) :
    Stmt → CheckM (Stmt × Scopes Ty)
  | .expr subject => do
    let (subject, _) ← checkExpr site locals subject
    return (.expr subject, locals)
  | .decl name type init line => do
    let declared ← site.writtenType line (.declaration name) type
    let (init, found) ← checkOptExpr site locals init
    site.requireInit line (.declaration name) declared found
    let locals ← declareLocal site locals line name declared
    return (.decl name type init line, locals)
  | .ret value line => do
    let value ← checkReturn site returns locals line value
    return (.ret value line, locals)
  | .ifThen cond body line => do
    let (cond, found) ← checkExpr site locals cond
    site.requireBoolean line .ifStatement found
    let (body, locals) ← checkStmt site returns loops locals.enter body
    return (.ifThen cond body line, locals.leave)
  | .ifElse cond body other line => do
    let (cond, found) ← checkExpr site locals cond
    site.requireBoolean line .ifStatement found
    let (body, locals) ← checkStmt site returns loops locals.enter body
    let (other, locals) ← checkStmt site returns loops locals.leave.enter other
    return (.ifElse cond body other line, locals.leave)
  | .whileLoop cond body line => do
    let (cond, found) ← checkExpr site locals cond
    site.requireBoolean line .whileStatement found
    let (body, locals) ← checkStmt site returns (loops + 1) locals.enter body
    return (.whileLoop cond body line, locals.leave)
  | .forLoop init cond update body line => do
    let (init, _) ← checkOptExpr site locals init
    let (cond, found) ← checkOptExpr site locals cond
    site.requirePredicate line .forStatement found
    let (update, _) ← checkOptExpr site locals update
    let (body, locals) ← checkStmt site returns (loops + 1) locals.enter body
    return (.forLoop init cond update body line, locals.leave)
  | .block body line => do
    let (body, locals) ← checkStmts site returns loops locals.enter body
    return (.block body line, locals.leave)
  | .breakLoop line => do
    site.require (loops != 0) line .strayBreak
    return (.breakLoop line, locals)

/-- Check statements in order. -/
def checkStmts (site : Site) (returns : Option Ty) (loops : Nat) (locals : Scopes Ty) :
    List Stmt → CheckM (List Stmt × Scopes Ty)
  | [] => return ([], locals)
  | stmt :: stmts => do
    let (stmt, locals) ← checkStmt site returns loops locals stmt
    let (stmts, locals) ← checkStmts site returns loops locals stmts
    return (stmt :: stmts, locals)

end

end ClassLang.Typing
