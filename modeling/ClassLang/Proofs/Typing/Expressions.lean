/-
# Deciding the types of expressions

The check of an expression reports nothing exactly if the rules give it a type, and
then finds that type. There is one lemma for each form: if the parts are decided, so
is the whole. The error type never comes in between, because every type that a rule
gives is written in the program, or is that of a local variable, a field or a method.
-/

import ClassLang.Proofs.Typing.Sites

namespace ClassLang.Typing

open CheckM

variable {site : Site} {locals : Scopes Ty}

/-! ## Where types come from -/

section Sources

variable {allowed : Ty → Prop}
  (hfields : ∀ {className name : String} {type : Ty},
    site.hierarchy.field? className name = some type → allowed type)
  (hlocals : locals.All allowed)

include hfields

theorem Site.FieldHas.all (hlength : allowed .int) {name : String} {object type : Ty}
    (hfield : site.FieldHas name object type) : allowed type := by
  cases hfield with
  | length => exact hlength
  | ofClass hfield => exact hfields hfield

include hlocals

theorem Site.VariableHas.all {name : String} {type : Ty}
    (hvariable : site.VariableHas locals name type) : allowed type := by
  cases hvariable with
  | ofLocal hlocal => exact hlocals _ _ hlocal
  | ofField _ hfield => exact hfields hfield

theorem Site.NameHas.all (hthis : allowed (.named site.className))
    (hsuper : ∀ {parent : String}, site.parent? = some parent → allowed (.named parent))
    {name : String} {type : Ty} (hname : site.NameHas locals name type) : allowed type := by
  cases hname with
  | this => exact hthis
  | super hparent => exact hsuper hparent
  | ofVariable _ _ hvariable => exact hvariable.all hfields hlocals

theorem Site.TargetHas.all {qualifier : Option String} {name : String} {type : Ty}
    (htarget : site.TargetHas locals name qualifier type) : allowed type := by
  cases htarget with
  | ofVariable hvariable => exact hvariable.all hfields hlocals
  | field _ hfield => exact hfields hfield

end Sources

/-! ## Types of expressions are free of the error type -/

section ErrorFree

variable (htables : site.hierarchy.ErrorFree) (hlocals : locals.ErrorFree)

include htables

theorem Site.FieldHas.errorFree {name : String} {object type : Ty}
    (hfield : site.FieldHas name object type) : type.errorFree = true :=
  hfield.all htables.field rfl

theorem Site.CallHas.errorFree {className method : String} {args : List Ty} {type : Ty}
    (hcall : site.CallHas className method args type) : type.errorFree = true := by
  obtain ⟨hmethod, _⟩ := hcall
  exact htables.method hmethod

include hlocals

theorem Site.NameHas.errorFree {name : String} {type : Ty} (hname : site.NameHas locals name type) :
    type.errorFree = true :=
  hname.all htables.field hlocals rfl fun _ => rfl

theorem Site.TargetHas.errorFree {qualifier : Option String} {name : String} {type : Ty}
    (htarget : site.TargetHas locals name qualifier type) : type.errorFree = true :=
  htarget.all htables.field hlocals

theorem FormHasType.errorFree {form : Form} {type : Ty}
    (hwritten : ∀ written ∈ form.writtenTypes, written.errorFree = true)
    (hform : FormHasType site locals form type) : type.errorFree = true := by
  cases hform with
  | call _ hcall | callOn _ _ _ hcall => exact hcall.errorFree htables
  | @newArray elem => exact hwritten elem (by simp [Form.writtenTypes])
  | cast => exact hwritten type (by simp [Form.writtenTypes])
  | assign htarget => exact htarget.errorFree htables hlocals
  | assignElem htarget =>
      have harray := htarget.errorFree htables hlocals
      exact harray
  | @binary op => cases op <;> rfl
  | @unary op => cases op <;> rfl
  | var hname => exact hname.errorFree htables hlocals
  | field _ hfield => exact hfield.errorFree htables
  | elem hname =>
      have harray := hname.errorFree htables hlocals
      exact harray
  | fieldElem _ hfield =>
      have harray := hfield.errorFree htables
      exact harray
  | new | instanceOf | int | bool | str | null => rfl

theorem HasType.errorFree {expr : Expr} {type : Ty}
    (hwritten : ∀ written ∈ expr.writtenTypes, written.errorFree = true)
    (hexpr : HasType site locals expr type) : type.errorFree = true := by
  obtain ⟨hform⟩ := hexpr
  rw [Expr.writtenTypes] at hwritten
  exact hform.errorFree htables hlocals hwritten

end ErrorFree

/-! ## Expressions -/

/-- The check of the expression decides its type, which is free of the error type. -/
structure ExprDecided (site : Site) (locals : Scopes Ty) (expr : Expr) : Prop where
  decides : Decides locals.ErrorFree Prod.snd (checkExpr site locals expr)
    (HasType site locals expr)
  errorFree : ∀ {type : Ty}, locals.ErrorFree ∧ HasType site locals expr type →
    type.errorFree = true

/-- The check of the form decides its type. -/
def FormDecided (site : Site) (locals : Scopes Ty) (form : Form) : Prop :=
  ∀ line, Decides locals.ErrorFree Prod.snd (checkForm site locals line form)
    (FormHasType site locals form)

/-- The check of the expressions decides their types. -/
def ExprsDecided (site : Site) (locals : Scopes Ty) (exprs : List Expr) : Prop :=
  Decides locals.ErrorFree Prod.snd (checkExprs site locals exprs) (HaveTypes site locals exprs)

namespace FormDecided

theorem call {method : String} {args : List Expr} (hargs : ExprsDecided site locals args) :
    FormDecided site locals (.call method args) := by
  intro line
  refine Decides.congr (hargs.bind_snd fun piece argTypes =>
    (Site.decides_callType site.className method argTypes).bind fun found =>
      .pure_snd (Form.call method piece) found) fun _ type => ?_
  constructor
  · rintro ⟨_, hargs, _, hcall, rfl⟩
    exact .call hargs hcall
  · intro hform
    cases hform with
    | call hargs hcall => exact ⟨_, hargs, _, hcall, rfl⟩

theorem callOn {receiver : Expr} {method : String} {args : List Expr}
    (hreceiver : ExprDecided site locals receiver) (hargs : ExprsDecided site locals args) :
    FormDecided site locals (.callOn receiver method args) := by
  intro line
  refine Decides.congr (hreceiver.decides.bind_snd fun piece receiverType =>
    ((Site.decides_receiverClass receiverType method).of_given hreceiver.errorFree).bind
      fun className => (hargs.of_given fun ⟨⟨hlocals, _⟩, _⟩ => hlocals).bind_snd
        fun pieces argTypes =>
        ((Site.decides_callTypeOn className method argTypes).of_given ?_).bind fun found =>
          .pure_snd (Form.callOn piece method pieces) found) fun _ type => ?_
  · rintro ⟨⟨_, _, hsome, _⟩, _⟩ rfl
    cases hsome
  constructor
  · rintro ⟨_, hreceiver, _, ⟨_, rfl, hclass⟩, _, hargs, _, ⟨_, ⟨⟩, hcall⟩, rfl⟩
    exact .callOn hreceiver hclass hargs hcall
  · intro hform
    cases hform with
    | callOn hreceiver hclass hargs hcall =>
        exact ⟨_, hreceiver, _, ⟨_, rfl, hclass⟩, _, hargs, _, ⟨_, rfl, hcall⟩, rfl⟩

theorem new {className : String} : FormDecided site locals (.new className) := by
  intro line
  refine Decides.congr ((Site.decides_newType className).bind fun found =>
    .pure_snd (Form.new className) found) fun _ type => ?_
  constructor
  · rintro ⟨_, ⟨hclass, rfl⟩, rfl⟩
    exact .new hclass
  · intro hform
    cases hform with
    | new hclass => exact ⟨_, ⟨hclass, rfl⟩, rfl⟩

theorem newArray {elem : Ty} {size : Expr} (helem : elem.errorFree = true)
    (hsize : ExprDecided site locals size) : FormDecided site locals (.newArray elem size) := by
  intro line
  refine Decides.congr (hsize.decides.bind_snd fun piece sizeType =>
    ((Site.decides_newArrayType sizeType helem).of_given hsize.errorFree).bind fun found =>
      .pure_snd (Form.newArray elem piece) found) fun _ type => ?_
  constructor
  · rintro ⟨_, hsize, _, ⟨rfl, helem, rfl⟩, rfl⟩
    exact .newArray hsize helem
  · intro hform
    cases hform with
    | newArray hsize helem => exact ⟨_, hsize, _, ⟨rfl, helem, rfl⟩, rfl⟩

theorem instanceOf {subject : Expr} {target : Ty} (hsubject : ExprDecided site locals subject) :
    FormDecided site locals (.instanceOf subject target) := by
  intro line
  refine Decides.congr (hsubject.decides.bind_snd fun piece subjectType =>
    ((Site.decides_instanceOfType subjectType target).of_given hsubject.errorFree).bind fun found =>
      .pure_snd (Form.instanceOf piece target) found) fun _ type => ?_
  constructor
  · rintro ⟨_, hsubject, _, ⟨hfrom, hto, hvalid, rfl⟩, rfl⟩
    exact .instanceOf hsubject hfrom hto hvalid
  · intro hform
    cases hform with
    | instanceOf hsubject hfrom hto hvalid =>
        exact ⟨_, hsubject, _, ⟨hfrom, hto, hvalid, rfl⟩, rfl⟩

theorem cast {target : Ty} {subject : Expr} (htarget : target.errorFree = true)
    (hsubject : ExprDecided site locals subject) :
    FormDecided site locals (.cast target subject) := by
  intro line
  refine Decides.congr (hsubject.decides.bind_snd fun piece subjectType =>
    (Site.decides_castType subjectType htarget).bind fun found =>
      .pure_snd (Form.cast target piece) found) fun _ type => ?_
  constructor
  · rintro ⟨_, hsubject, _, ⟨hfrom, hto, hvalid, hrelated, rfl⟩, rfl⟩
    exact .cast hsubject hfrom hto hvalid hrelated
  · intro hform
    cases hform with
    | cast hsubject hfrom hto hvalid hrelated =>
        exact ⟨_, hsubject, _, ⟨hfrom, hto, hvalid, hrelated, rfl⟩, rfl⟩

theorem assign {qualifier : Option String} {name : String} {value : Expr}
    (hvalue : ExprDecided site locals value) :
    FormDecided site locals (.assign qualifier name value) := by
  intro line
  refine Decides.congr ((Site.decides_targetType locals qualifier name).bind fun target =>
    (hvalue.decides.of_given And.left).bind_snd fun piece valueType =>
      (Site.decides_requireCompatible (.assignment name) target valueType).bind_unit fun _ =>
        .pure_snd (Form.assign qualifier name piece) target) fun _ type => ?_
  constructor
  · rintro ⟨_, htarget, _, hvalue, hsuits, rfl⟩
    exact .assign htarget hvalue hsuits
  · intro hform
    cases hform with
    | assign htarget hvalue hsuits => exact ⟨_, htarget, _, hvalue, hsuits, rfl⟩

theorem assignElem (htables : site.hierarchy.ErrorFree) {qualifier : Option String} {name : String}
    {index value : Expr} (hindex : ExprDecided site locals index)
    (hvalue : ExprDecided site locals value) :
    FormDecided site locals (.assignElem qualifier name index value) := by
  intro line
  refine Decides.congr ((Site.decides_targetType locals qualifier name).bind fun target =>
    (hindex.decides.of_given And.left).bind_snd fun place indexType =>
      ((Site.decides_requireInt indexType .arrayIndex).of_given fun ⟨⟨hlocals, _⟩, htype⟩ =>
        hindex.errorFree ⟨hlocals, htype⟩).bind_unit fun _ =>
      (hvalue.decides.of_given fun ⟨⟨⟨hlocals, _⟩, _⟩, _⟩ => hlocals).bind_snd
        fun piece valueType =>
        ((Site.decides_elemType target name).of_given fun ⟨⟨⟨⟨hlocals, htarget⟩, _⟩, _⟩, _⟩ =>
          htarget.errorFree htables hlocals).bind fun elem =>
        (Site.decides_requireCompatible (.elemAssignment name) elem valueType).bind_unit fun _ =>
          .pure_snd (Form.assignElem qualifier name place piece) elem) fun _ type => ?_
  constructor
  · rintro ⟨_, htarget, _, hindex, rfl, _, hvalue, _, rfl, hsuits, rfl⟩
    exact .assignElem htarget hindex hvalue hsuits
  · intro hform
    cases hform with
    | assignElem htarget hindex hvalue hsuits =>
        exact ⟨_, htarget, _, hindex, rfl, _, hvalue, _, rfl, hsuits, rfl⟩

theorem binary {op : BinaryOp} {left right : Expr} (hleft : ExprDecided site locals left)
    (hright : ExprDecided site locals right) :
    FormDecided site locals (.binary op left right) := by
  intro line
  refine Decides.congr (hleft.decides.bind_snd fun first leftType =>
    (hright.decides.of_given And.left).bind_snd fun second rightType =>
      ((Site.decides_binaryType op leftType rightType).of_given
        fun ⟨⟨hlocals, hfirst⟩, hsecond⟩ =>
          ⟨hleft.errorFree ⟨hlocals, hfirst⟩, hright.errorFree ⟨hlocals, hsecond⟩⟩).bind
        fun found =>
        .pure_snd (Form.binary op first second) found) fun _ type => ?_
  constructor
  · rintro ⟨_, hleft, _, hright, _, ⟨htakes, rfl⟩, rfl⟩
    exact .binary hleft hright htakes
  · intro hform
    cases hform with
    | binary hleft hright htakes => exact ⟨_, hleft, _, hright, _, ⟨htakes, rfl⟩, rfl⟩

theorem unary {op : UnaryOp} {operand : Expr} (hoperand : ExprDecided site locals operand) :
    FormDecided site locals (.unary op operand) := by
  intro line
  refine Decides.congr (hoperand.decides.bind_snd fun piece operandType =>
    ((Site.decides_unaryType operandType op operand.isPlace).of_given hoperand.errorFree).bind
      fun found => .pure_snd (Form.unary op piece) found) fun _ type => ?_
  constructor
  · rintro ⟨_, hoperand, _, ⟨rfl, hplace, rfl⟩, rfl⟩
    exact .unary hoperand hplace
  · intro hform
    cases hform with
    | unary hoperand hplace => exact ⟨_, hoperand, _, ⟨rfl, hplace, rfl⟩, rfl⟩

theorem var {name : String} : FormDecided site locals (.var name) := by
  intro line
  refine Decides.congr ((Site.decides_nameType locals name).bind fun found =>
    .pure_snd (Form.var name) found) fun _ type => ?_
  constructor
  · rintro ⟨_, hname, rfl⟩
    exact .var hname
  · intro hform
    cases hform with
    | var hname => exact ⟨_, hname, rfl⟩

theorem field {object : Expr} {name : String} (hobject : ExprDecided site locals object) :
    FormDecided site locals (.field object name) := by
  intro line
  refine Decides.congr (hobject.decides.bind_snd fun piece objectType =>
    ((Site.decides_accessType objectType name).of_given hobject.errorFree).bind fun found =>
      .pure_snd (Form.field piece name) found) fun _ type => ?_
  constructor
  · rintro ⟨_, hobject, _, hfield, rfl⟩
    exact .field hobject hfield
  · intro hform
    cases hform with
    | field hobject hfield => exact ⟨_, hobject, _, hfield, rfl⟩

/-- The part that the two ways to read an element share. -/
theorem element {given : Prop} {array : Ty} {name : String} {index : Expr} {line : Nat}
    {rebuild : Expr → Form} (hindex : ExprDecided site locals index)
    (hgiven : given → locals.ErrorFree ∧ array.errorFree = true) :
    Decides given Prod.snd
      (do
        let (index, indexType) ← checkExpr site locals index
        site.requireInt line .arrayIndex indexType
        let found ← site.elemType line name array
        return (rebuild index, found))
      fun elem => HasType site locals index .int ∧ array = .array elem := by
  refine Decides.congr ((hindex.decides.of_given fun h => (hgiven h).1).bind_snd
    fun piece indexType =>
      ((Site.decides_requireInt indexType .arrayIndex).of_given fun h =>
        hindex.errorFree ⟨(hgiven h.1).1, h.2⟩).bind_unit fun _ =>
      ((Site.decides_elemType array name).of_given fun ⟨⟨h, _⟩, _⟩ => (hgiven h).2).bind
        fun found =>
        .pure_snd (rebuild piece) found) fun _ elem => ?_
  constructor
  · rintro ⟨_, hindex, rfl, _, rfl, rfl⟩
    exact ⟨hindex, rfl⟩
  · rintro ⟨hindex, rfl⟩
    exact ⟨_, hindex, rfl, _, rfl, rfl⟩

theorem elem (htables : site.hierarchy.ErrorFree) {name : String} {index : Expr}
    (hindex : ExprDecided site locals index) : FormDecided site locals (.elem name index) := by
  intro line
  refine Decides.congr ((Site.decides_nameType locals name).bind fun array =>
    element hindex fun h => ⟨h.1, h.2.errorFree htables h.1⟩) fun _ type => ?_
  constructor
  · rintro ⟨_, hname, hindex, rfl⟩
    exact .elem hname hindex
  · intro hform
    cases hform with
    | elem hname hindex => exact ⟨_, hname, hindex, rfl⟩

theorem fieldElem (htables : site.hierarchy.ErrorFree) {object index : Expr} {name : String}
    (hobject : ExprDecided site locals object) (hindex : ExprDecided site locals index) :
    FormDecided site locals (.fieldElem object name index) := by
  intro line
  refine Decides.congr (hobject.decides.bind_snd fun piece objectType =>
    ((Site.decides_accessType objectType name).of_given hobject.errorFree).bind fun array =>
      element hindex fun ⟨⟨hlocals, _⟩, hfield⟩ => ⟨hlocals, hfield.errorFree htables⟩)
    fun _ type => ?_
  constructor
  · rintro ⟨_, hobject, _, hfield, hindex, rfl⟩
    exact .fieldElem hobject hfield hindex
  · intro hform
    cases hform with
    | fieldElem hobject hfield hindex => exact ⟨_, hobject, _, hfield, hindex, rfl⟩

theorem constant {form : Form} {type : Ty}
    (hcheck : ∀ line, checkForm site locals line form = pure (form, type))
    (hform : ∀ found, type = found ↔ FormHasType site locals form found) :
    FormDecided site locals form := by
  intro line
  rw [hcheck]
  exact (Decides.pure_snd form type).congr fun _ found => hform found

end FormDecided

theorem ExprDecided.node (htables : site.hierarchy.ErrorFree) {form : Form} {line : Nat}
    {slot : Option Ty}
    (hwritten : ∀ written ∈ (Expr.node form line slot).writtenTypes, written.errorFree = true)
    (hform : FormDecided site locals form) :
    ExprDecided site locals (.node form line slot) where
  decides := by
    refine Decides.congr ((hform line).bind_snd fun piece found =>
      (Decides.unlessStopped slot (some found)).bind fun slot =>
        .pure_snd (Expr.node piece line slot) found) fun _ type => ?_
    constructor
    · rintro ⟨_, hform, _, _, rfl⟩
      exact .node hform
    · rintro ⟨hform⟩
      exact ⟨_, hform, _, rfl, rfl⟩
  errorFree := fun ⟨hlocals, hexpr⟩ => hexpr.errorFree htables hlocals hwritten

theorem ExprsDecided.cons {expr : Expr} {exprs : List Expr} (hexpr : ExprDecided site locals expr)
    (hexprs : ExprsDecided site locals exprs) : ExprsDecided site locals (expr :: exprs) := by
  refine Decides.congr (hexpr.decides.bind_snd fun piece found =>
    (hexprs.of_given And.left).bind_snd fun pieces types =>
      .pure_snd (piece :: pieces) (found :: types)) fun _ types => ?_
  constructor
  · rintro ⟨_, hexpr, _, hexprs, rfl⟩
    exact .cons hexpr hexprs
  · rintro (_ | ⟨hexpr, hexprs⟩)
    exact ⟨_, hexpr, _, hexprs, rfl⟩

theorem ExprsDecided.nil : ExprsDecided site locals [] := by
  refine (Decides.pure_snd [] []).congr fun _ types => ?_
  constructor
  · rintro rfl
    exact .nil
  · rintro ⟨⟩
    rfl

mutual

/-- Every expression is decided whose written types are free of the error type. -/
theorem exprDecided (htables : site.hierarchy.ErrorFree) : (expr : Expr) →
    (∀ written ∈ expr.writtenTypes, written.errorFree = true) → ExprDecided site locals expr
  | .node form line slot, hwritten => .node htables hwritten (formDecided htables form
      fun written hmem => hwritten written (by simpa only [Expr.writtenTypes] using hmem))

theorem formDecided (htables : site.hierarchy.ErrorFree) : (form : Form) →
    (∀ written ∈ form.writtenTypes, written.errorFree = true) → FormDecided site locals form
  | .call method args, hwritten => by
      simp only [Form.writtenTypes] at hwritten
      exact .call (exprsDecided htables args hwritten)
  | .callOn receiver method args, hwritten => by
      simp only [Form.writtenTypes, List.forall_mem_append] at hwritten
      exact .callOn (exprDecided htables receiver hwritten.1) (exprsDecided htables args hwritten.2)
  | .new className, _ => .new
  | .newArray elem size, hwritten => by
      simp only [Form.writtenTypes, List.forall_mem_cons] at hwritten
      exact .newArray hwritten.1 (exprDecided htables size hwritten.2)
  | .instanceOf subject target, hwritten => by
      simp only [Form.writtenTypes, List.forall_mem_cons] at hwritten
      exact .instanceOf (exprDecided htables subject hwritten.2)
  | .cast target subject, hwritten => by
      simp only [Form.writtenTypes, List.forall_mem_cons] at hwritten
      exact .cast hwritten.1 (exprDecided htables subject hwritten.2)
  | .assign qualifier name value, hwritten => by
      simp only [Form.writtenTypes] at hwritten
      exact .assign (exprDecided htables value hwritten)
  | .assignElem qualifier name index value, hwritten => by
      simp only [Form.writtenTypes, List.forall_mem_append] at hwritten
      exact .assignElem htables (exprDecided htables index hwritten.1)
        (exprDecided htables value hwritten.2)
  | .binary op left right, hwritten => by
      simp only [Form.writtenTypes, List.forall_mem_append] at hwritten
      exact .binary (exprDecided htables left hwritten.1) (exprDecided htables right hwritten.2)
  | .unary op operand, hwritten => by
      simp only [Form.writtenTypes] at hwritten
      exact .unary (exprDecided htables operand hwritten)
  | .var name, _ => .var
  | .field object name, hwritten => by
      simp only [Form.writtenTypes] at hwritten
      exact .field (exprDecided htables object hwritten)
  | .elem name index, hwritten => by
      simp only [Form.writtenTypes] at hwritten
      exact .elem htables (exprDecided htables index hwritten)
  | .fieldElem object name index, hwritten => by
      simp only [Form.writtenTypes, List.forall_mem_append] at hwritten
      exact .fieldElem htables (exprDecided htables object hwritten.1)
        (exprDecided htables index hwritten.2)
  | .int value, _ => .constant (fun _ => rfl)
      fun _ => ⟨fun h => h ▸ .int value, fun h => by cases h; rfl⟩
  | .bool value, _ => .constant (fun _ => rfl)
      fun _ => ⟨fun h => h ▸ .bool value, fun h => by cases h; rfl⟩
  | .str value, _ => .constant (fun _ => rfl)
      fun _ => ⟨fun h => h ▸ .str value, fun h => by cases h; rfl⟩
  | .null, _ => .constant (fun _ => rfl)
      fun _ => ⟨fun h => h ▸ .null, fun h => by cases h; rfl⟩

theorem exprsDecided (htables : site.hierarchy.ErrorFree) : (exprs : List Expr) →
    (∀ written ∈ Expr.listWrittenTypes exprs, written.errorFree = true) →
      ExprsDecided site locals exprs
  | [], _ => .nil
  | expr :: exprs, hwritten => by
      simp only [Expr.listWrittenTypes, List.forall_mem_append] at hwritten
      exact .cons (exprDecided htables expr hwritten.1) (exprsDecided htables exprs hwritten.2)

end

end ClassLang.Typing
