/-
# The typing rules

The rules of the language as relations between pieces of a program and types. They
say nothing of reports, of the order of checks, or of the error type: a piece that
breaks a rule has no type. The error type comes in at one place only, where it is
said which types are free of it.
-/

import Mathlib.Data.List.Forall2
import ClassLang.Typing.Program

namespace ClassLang

/-! ## Written types -/

/-- The type is not the error type and has no elements of it. -/
def Ty.errorFree : Ty → Bool
  | error => false
  | array elem => elem.errorFree
  | _ => true

theorem Ty.isError_eq_false {type : Ty} (htype : type.errorFree = true) :
    type.isError = false := by
  cases type <;> simp_all [errorFree, isError]

/-- Whether the form calls a method. Nothing but a call can have the type `void`. -/
def Form.isCall : Form → Bool
  | .call _ _ | .callOn _ _ _ => true
  | _ => false

mutual

/-- The types that are written in an expression. -/
def Expr.writtenTypes : Expr → List Ty
  | .node form _ _ => form.writtenTypes

/-- The types that are written in a form. -/
def Form.writtenTypes : Form → List Ty
  | .call _ args => Expr.listWrittenTypes args
  | .callOn receiver _ args => receiver.writtenTypes ++ Expr.listWrittenTypes args
  | .newArray elem size => elem :: size.writtenTypes
  | .instanceOf subject target => target :: subject.writtenTypes
  | .cast target subject => target :: subject.writtenTypes
  | .assign _ _ value => value.writtenTypes
  | .assignElem _ _ index value => index.writtenTypes ++ value.writtenTypes
  | .binary _ left right => left.writtenTypes ++ right.writtenTypes
  | .unary _ operand => operand.writtenTypes
  | .field object _ => object.writtenTypes
  | .elem _ index => index.writtenTypes
  | .fieldElem object _ index => object.writtenTypes ++ index.writtenTypes
  | .new _ | .var _ | .int _ | .bool _ | .str _ | .null => []

/-- The types that are written in expressions. -/
def Expr.listWrittenTypes : List Expr → List Ty
  | [] => []
  | expr :: exprs => expr.writtenTypes ++ Expr.listWrittenTypes exprs

end

/-- The types that are written in an expression that may be absent. -/
def Expr.optWrittenTypes : Option Expr → List Ty
  | some expr => expr.writtenTypes
  | none => []

mutual

/-- The types that are written in a statement. -/
def Stmt.writtenTypes : Stmt → List Ty
  | .expr subject => subject.writtenTypes
  | .decl _ type init _ => type :: Expr.optWrittenTypes init
  | .ret value _ => Expr.optWrittenTypes value
  | .ifThen cond body _ => cond.writtenTypes ++ body.writtenTypes
  | .ifElse cond body other _ => cond.writtenTypes ++ body.writtenTypes ++ other.writtenTypes
  | .whileLoop cond body _ => cond.writtenTypes ++ body.writtenTypes
  | .forLoop init cond update body _ =>
    Expr.optWrittenTypes init ++ Expr.optWrittenTypes cond ++ Expr.optWrittenTypes update ++
      body.writtenTypes
  | .block body _ => Stmt.listWrittenTypes body
  | .breakLoop _ => []

/-- The types that are written in statements. -/
def Stmt.listWrittenTypes : List Stmt → List Ty
  | [] => []
  | stmt :: stmts => stmt.writtenTypes ++ Stmt.listWrittenTypes stmts

end

/-- The types that are written in a member. -/
def Member.writtenTypes : Member → List Ty
  | field decl => decl.type :: Expr.optWrittenTypes decl.init
  | method decl =>
    decl.returnType :: decl.params.map Param.type ++ Stmt.listWrittenTypes decl.body

/-- The types that are written in a class. -/
def ClassDecl.writtenTypes (decl : ClassDecl) : List Ty :=
  decl.members.flatMap Member.writtenTypes

theorem ClassDecl.type_mem_writtenTypes {decl : ClassDecl} {field : FieldDecl}
    (hfield : field ∈ decl.fields) : field.type ∈ decl.writtenTypes := by
  obtain ⟨member, hmember, hfield⟩ := List.mem_filterMap.mp hfield
  refine List.mem_flatMap.mpr ⟨member, hmember, ?_⟩
  cases member with
  | field found =>
      obtain rfl := Option.some.inj hfield
      exact List.mem_cons_self
  | method => cases hfield

theorem ClassDecl.returnType_mem_writtenTypes {decl : ClassDecl} {method : MethodDecl}
    (hmethod : method ∈ decl.methods) : method.returnType ∈ decl.writtenTypes := by
  obtain ⟨member, hmember, hmethod⟩ := List.mem_filterMap.mp hmethod
  refine List.mem_flatMap.mpr ⟨member, hmember, ?_⟩
  cases member with
  | field => cases hmethod
  | method found =>
      obtain rfl := Option.some.inj hmethod
      exact List.mem_cons_self

/-- The types that are written in a program. -/
def Program.writtenTypes (program : Program) : List Ty :=
  program.classes.flatMap ClassDecl.writtenTypes

/-! ## Tables without the error type -/

/-- What a name can mean in these scopes is allowed. -/
def Scopes.All {α : Type} (allowed : α → Prop) (scopes : Scopes α) : Prop :=
  ∀ name value, scopes.lookup name = some value → allowed value

theorem Scopes.All.add {α : Type} {allowed : α → Prop} {scopes : Scopes α}
    (hscopes : scopes.All allowed) (name : String) {value : α} (hvalue : allowed value) :
    (scopes.add name value).All allowed := by
  intro other found hfound
  rw [lookup_add] at hfound
  split at hfound
  next => exact Option.some.inj hfound ▸ hvalue
  next => exact hscopes other found hfound

/-- The types in these scopes are free of the error type. -/
def Scopes.ErrorFree (locals : Scopes Ty) : Prop :=
  locals.All fun type => type.errorFree = true

/-- The types of fields and the results of methods are free of the error type. -/
structure Hierarchy.ErrorFree (hierarchy : Hierarchy) : Prop where
  fields : ∀ name info, hierarchy.get? name = some info → info.fields.ErrorFree
  methods : ∀ name info, hierarchy.get? name = some info →
    info.methods.All fun sig => sig.returnType.errorFree = true

namespace Hierarchy.ErrorFree

variable {hierarchy : Hierarchy} {className name : String}

theorem field (htables : hierarchy.ErrorFree) {type : Ty}
    (hfield : hierarchy.field? className name = some type) : type.errorFree = true := by
  obtain ⟨info, hget, hlookup⟩ := Option.bind_eq_some_iff.mp hfield
  exact htables.fields className info hget name type hlookup

theorem method (htables : hierarchy.ErrorFree) {sig : Signature}
    (hmethod : hierarchy.method? className name = some sig) : sig.returnType.errorFree = true := by
  obtain ⟨info, hget, hlookup⟩ := Option.bind_eq_some_iff.mp hmethod
  exact htables.methods className info hget name sig hlookup

end Hierarchy.ErrorFree

namespace Typing

/-! ## Names, members and operands -/

namespace Site

variable (site : Site)

/-- What a variable is: the innermost local one, or else a field of the class. -/
inductive VariableHas (locals : Scopes Ty) (name : String) : Ty → Prop
  | ofLocal {type : Ty} (hlocal : locals.lookup name = some type) : VariableHas locals name type
  | ofField {type : Ty} (hlocal : locals.lookup name = none)
      (hfield : site.hierarchy.field? site.className name = some type) :
      VariableHas locals name type

/-- What a name in an expression is. -/
inductive NameHas (locals : Scopes Ty) : String → Ty → Prop
  | this : NameHas locals "this" (.named site.className)
  | super {parent : String} (hparent : site.parent? = some parent) :
      NameHas locals "super" (.named parent)
  | ofVariable {name : String} {type : Ty} (hthis : name ≠ "this") (hsuper : name ≠ "super")
      (hvariable : site.VariableHas locals name type) : NameHas locals name type

/-- The class whose field a qualified name is. -/
inductive Qualifies : String → String → Prop
  | this : Qualifies "this" site.className
  | super {parent : String} (hparent : site.parent? = some parent) : Qualifies "super" parent
  | ofClass {className : String} (hthis : className ≠ "this") (hsuper : className ≠ "super") :
      Qualifies className className

/-- What an assignment stores into. -/
inductive TargetHas (locals : Scopes Ty) (name : String) : Option String → Ty → Prop
  | ofVariable {type : Ty} (hvariable : site.VariableHas locals name type) :
      TargetHas locals name none type
  | field {qualifier className : String} {type : Ty} (hclass : site.Qualifies qualifier className)
      (hfield : site.hierarchy.field? className name = some type) :
      TargetHas locals name (some qualifier) type

/-- What the field of an object is. -/
inductive FieldHas (name : String) : Ty → Ty → Prop
  | length {elem : Ty} (hname : name = "length") : FieldHas name (.array elem) .int
  | ofClass {className : String} {type : Ty}
      (hfield : site.hierarchy.field? className name = some type) :
      FieldHas name (.named className) type

/-- The class that has the methods of a type. -/
inductive Receives : Ty → String → Prop
  | ofClass (className : String) : Receives (.named className) className
  | ofArray (elem : Ty) : Receives (.array elem) Ty.objectName

/-- The method is there, takes that many arguments, and each of them suits. -/
inductive CallHas (className method : String) (args : List Ty) : Ty → Prop
  | intro {sig : Signature} (hmethod : site.hierarchy.method? className method = some sig)
      (hargs : List.Forall₂ (fun (param : Param) arg =>
        site.hierarchy.compatible param.type arg = true) sig.params args) :
      CallHas className method args sig.returnType

/-- The operands that a binary operator takes: both of its operand type if it has one,
else two values that can be compared. -/
inductive Takes (op : BinaryOp) : Ty → Ty → Prop
  | uniform {required : Ty} (hop : op.operandType = some required) : Takes op required required
  | related {left right : Ty} (hop : op.operandType = none)
      (hkind : left.isPrimitive = right.isPrimitive) (hvoid : left ≠ .void)
      (hrelated : site.hierarchy.compatible left right = true ∨
        site.hierarchy.compatible right left = true) : Takes op left right

end Site

/-! ## Expressions -/

mutual

/-- The expression has a type. -/
inductive HasType (site : Site) (locals : Scopes Ty) : Expr → Ty → Prop
  | node {form : Form} {line : Nat} {slot : Option Ty} {type : Ty}
      (hform : FormHasType site locals form type) : HasType site locals (.node form line slot) type

/-- The expression of this form has a type. -/
inductive FormHasType (site : Site) (locals : Scopes Ty) : Form → Ty → Prop
  | call {method : String} {args : List Expr} {argTypes : List Ty} {type : Ty}
      (hargs : HaveTypes site locals args argTypes)
      (hcall : site.CallHas site.className method argTypes type) :
      FormHasType site locals (.call method args) type
  | callOn {receiver : Expr} {method className : String} {args : List Expr} {receiverType : Ty}
      {argTypes : List Ty} {type : Ty} (hreceiver : HasType site locals receiver receiverType)
      (hclass : Site.Receives receiverType className)
      (hargs : HaveTypes site locals args argTypes)
      (hcall : site.CallHas className method argTypes type) :
      FormHasType site locals (.callOn receiver method args) type
  | new {className : String} (hclass : site.hierarchy.contains className = true) :
      FormHasType site locals (.new className) (.named className)
  | newArray {elem : Ty} {size : Expr} (hsize : HasType site locals size .int)
      (helem : site.hierarchy.validType false elem = true) :
      FormHasType site locals (.newArray elem size) (.array elem)
  | instanceOf {subject : Expr} {subjectType target : Ty}
      (hsubject : HasType site locals subject subjectType)
      (hfrom : subjectType.isPrimitive = false) (hto : target.isPrimitive = false)
      (hvalid : site.hierarchy.validType false target = true) :
      FormHasType site locals (.instanceOf subject target) .boolean
  | cast {target subjectType : Ty} {subject : Expr}
      (hsubject : HasType site locals subject subjectType)
      (hfrom : subjectType.isPrimitive = false) (hto : target.isPrimitive = false)
      (hvalid : site.hierarchy.validType false target = true)
      (hrelated : site.hierarchy.compatible target subjectType = true ∨
        site.hierarchy.compatible subjectType target = true) :
      FormHasType site locals (.cast target subject) target
  | assign {qualifier : Option String} {name : String} {value : Expr} {type valueType : Ty}
      (htarget : site.TargetHas locals name qualifier type)
      (hvalue : HasType site locals value valueType)
      (hsuits : site.hierarchy.compatible type valueType = true) :
      FormHasType site locals (.assign qualifier name value) type
  | assignElem {qualifier : Option String} {name : String} {index value : Expr}
      {elem valueType : Ty} (htarget : site.TargetHas locals name qualifier (.array elem))
      (hindex : HasType site locals index .int) (hvalue : HasType site locals value valueType)
      (hsuits : site.hierarchy.compatible elem valueType = true) :
      FormHasType site locals (.assignElem qualifier name index value) elem
  | binary {op : BinaryOp} {left right : Expr} {leftType rightType : Ty}
      (hleft : HasType site locals left leftType) (hright : HasType site locals right rightType)
      (htakes : site.Takes op leftType rightType) :
      FormHasType site locals (.binary op left right) op.resultType
  | unary {op : UnaryOp} {operand : Expr} (hoperand : HasType site locals operand op.operandType)
      (hplace : op.needsPlace = true → operand.isPlace = true) :
      FormHasType site locals (.unary op operand) op.operandType
  | var {name : String} {type : Ty} (hname : site.NameHas locals name type) :
      FormHasType site locals (.var name) type
  | field {object : Expr} {name : String} {objectType type : Ty}
      (hobject : HasType site locals object objectType)
      (hfield : site.FieldHas name objectType type) :
      FormHasType site locals (.field object name) type
  | elem {name : String} {index : Expr} {type : Ty} (hname : site.NameHas locals name (.array type))
      (hindex : HasType site locals index .int) : FormHasType site locals (.elem name index) type
  | fieldElem {object index : Expr} {name : String} {objectType type : Ty}
      (hobject : HasType site locals object objectType)
      (hfield : site.FieldHas name objectType (.array type))
      (hindex : HasType site locals index .int) :
      FormHasType site locals (.fieldElem object name index) type
  | int (value : Int) : FormHasType site locals (.int value) .int
  | bool (value : Bool) : FormHasType site locals (.bool value) .boolean
  | str (value : String) : FormHasType site locals (.str value) .string
  | null : FormHasType site locals .null .null

/-- The expressions have types, one each. -/
inductive HaveTypes (site : Site) (locals : Scopes Ty) : List Expr → List Ty → Prop
  | nil : HaveTypes site locals [] []
  | cons {expr : Expr} {exprs : List Expr} {type : Ty} {types : List Ty}
      (hexpr : HasType site locals expr type) (hexprs : HaveTypes site locals exprs types) :
      HaveTypes site locals (expr :: exprs) (type :: types)

end

/-! ## Statements -/

mutual

/-- The statement is allowed in a method that returns `returns`, inside a loop or not,
and leaves these scopes to the statements after it. -/
inductive StmtOk (site : Site) (returns : Ty) :
    (inLoop : Bool) → Scopes Ty → Stmt → Scopes Ty → Prop
  | expr {inLoop : Bool} {locals : Scopes Ty} {subject : Expr} {type : Ty}
      (hsubject : HasType site locals subject type) :
      StmtOk site returns inLoop locals (.expr subject) locals
  | decl {inLoop : Bool} {locals : Scopes Ty} {name : String} {type : Ty} {init : Option Expr}
      {line : Nat} (hvalid : site.hierarchy.validType false type = true)
      (hinit : ∀ value ∈ init, ∃ found, HasType site locals value found ∧
        site.hierarchy.compatible type found = true)
      (hfresh : locals.peek name = none) :
      StmtOk site returns inLoop locals (.decl name type init line) (locals.add name type)
  | retVoid {inLoop : Bool} {locals : Scopes Ty} {line : Nat} (hreturns : returns = .void) :
      StmtOk site returns inLoop locals (.ret none line) locals
  | ret {inLoop : Bool} {locals : Scopes Ty} {value : Expr} {found : Ty} {line : Nat}
      (hreturns : returns ≠ .void) (hvalue : HasType site locals value found)
      (hsuits : site.hierarchy.compatible returns found = true) :
      StmtOk site returns inLoop locals (.ret (some value) line) locals
  | ifThen {inLoop : Bool} {locals after : Scopes Ty} {cond : Expr} {body : Stmt} {line : Nat}
      (hcond : HasType site locals cond .boolean)
      (hbody : StmtOk site returns inLoop locals.enter body after) :
      StmtOk site returns inLoop locals (.ifThen cond body line) locals
  | ifElse {inLoop : Bool} {locals after otherwise : Scopes Ty} {cond : Expr} {body other : Stmt}
      {line : Nat} (hcond : HasType site locals cond .boolean)
      (hbody : StmtOk site returns inLoop locals.enter body after)
      (hother : StmtOk site returns inLoop locals.enter other otherwise) :
      StmtOk site returns inLoop locals (.ifElse cond body other line) locals
  | whileLoop {inLoop : Bool} {locals after : Scopes Ty} {cond : Expr} {body : Stmt} {line : Nat}
      (hcond : HasType site locals cond .boolean)
      (hbody : StmtOk site returns true locals.enter body after) :
      StmtOk site returns inLoop locals (.whileLoop cond body line) locals
  | forLoop {inLoop : Bool} {locals after : Scopes Ty} {init cond update : Option Expr}
      {body : Stmt} {line : Nat} (hinit : ∀ expr ∈ init, ∃ type, HasType site locals expr type)
      (hcond : ∀ expr ∈ cond, HasType site locals expr .boolean)
      (hupdate : ∀ expr ∈ update, ∃ type, HasType site locals expr type)
      (hbody : StmtOk site returns true locals.enter body after) :
      StmtOk site returns inLoop locals (.forLoop init cond update body line) locals
  | block {inLoop : Bool} {locals after : Scopes Ty} {body : List Stmt} {line : Nat}
      (hbody : StmtsOk site returns inLoop locals.enter body after) :
      StmtOk site returns inLoop locals (.block body line) locals
  | breakLoop {locals : Scopes Ty} {line : Nat} :
      StmtOk site returns true locals (.breakLoop line) locals

/-- Each statement is allowed in the scopes that those before it leave. -/
inductive StmtsOk (site : Site) (returns : Ty) :
    (inLoop : Bool) → Scopes Ty → List Stmt → Scopes Ty → Prop
  | nil {inLoop : Bool} {locals : Scopes Ty} : StmtsOk site returns inLoop locals [] locals
  | cons {inLoop : Bool} {locals middle after : Scopes Ty} {stmt : Stmt} {stmts : List Stmt}
      (hstmt : StmtOk site returns inLoop locals stmt middle)
      (hstmts : StmtsOk site returns inLoop middle stmts after) :
      StmtsOk site returns inLoop locals (stmt :: stmts) after

end

/-! ## Programs -/

/-- The scopes at the start of a body. -/
def paramScopes (params : List Param) : Scopes Ty :=
  params.foldl (fun locals param => locals.add param.name param.type) ({} : Scopes Ty).enter

/-- A field is initialized by a value that suits it, or not at all. A method has
distinct parameters, which its body sees. -/
inductive MemberOk (site : Site) : Member → Prop
  | field {decl : FieldDecl}
      (hinit : ∀ value ∈ decl.init, ∃ found, HasType site {} value found ∧
        site.hierarchy.compatible decl.type found = true) : MemberOk site (.field decl)
  | method {decl : MethodDecl} {after : Scopes Ty} (hparams : (decl.params.map Param.name).Nodup)
      (hbody : StmtsOk site decl.returnType false (paramScopes decl.params) decl.body after) :
      MemberOk site (.method decl)

/-- All members of all classes of the program are allowed. -/
def WellTyped (hierarchy : Hierarchy) (program : Program) : Prop :=
  ∀ decl ∈ program.classes, ∀ member ∈ decl.members,
    MemberOk ⟨hierarchy, decl.name, decl.file⟩ member

end Typing

end ClassLang
