/-
# Types that exist

Where the tables of all classes hold types that exist, the rules give no others: the type
of an expression is written in the program, comes from a table or a local variable, or is
one that every program has. The type `void` is written for results of methods only, so
only a call has it.
-/

import ClassLang.Proofs.Typing.Statements

namespace ClassLang

namespace Hierarchy

variable {hierarchy : Hierarchy}

theorem validType_true {allowVoid : Bool} {type : Ty}
    (htype : hierarchy.validType allowVoid type = true) : hierarchy.validType true type = true := by
  cases type with
  | void => rfl
  | named | array | int | boolean | null | error => exact htype

/-- The types that can be reached from any place in a class exist. -/
structure TypesExist (hierarchy : Hierarchy) : Prop where
  fields : ∀ {className name type}, hierarchy.field? className name = some type →
    hierarchy.validType false type = true
  methods : ∀ {className name sig}, hierarchy.method? className name = some sig →
    hierarchy.validType true sig.returnType = true
  parents : ∀ {child parent}, hierarchy.parent? child = some parent →
    hierarchy.contains parent = true
  string : hierarchy.validType false .string = true

end Hierarchy

/-- The types of local variables exist. -/
def Scopes.TypesExist (hierarchy : Hierarchy) (locals : Scopes Ty) : Prop :=
  locals.All fun type => hierarchy.validType false type = true

namespace Typing

/-- A place in a program all of whose types exist. -/
structure Site.Sound (site : Site) : Prop where
  errorFree : site.hierarchy.ErrorFree
  types : site.hierarchy.TypesExist
  self : site.hierarchy.contains site.className = true

variable {site : Site} {locals after : Scopes Ty}

/-! ## Types of expressions -/

section Expressions

variable (hsite : site.Sound) (hlocals : locals.TypesExist site.hierarchy)

include hsite

theorem Site.FieldHas.valid {name : String} {object type : Ty}
    (hfield : site.FieldHas name object type) : site.hierarchy.validType false type = true :=
  hfield.all hsite.types.fields rfl

include hlocals

theorem Site.NameHas.valid {name : String} {type : Ty} (hname : site.NameHas locals name type) :
    site.hierarchy.validType false type = true :=
  hname.all hsite.types.fields hlocals hsite.self hsite.types.parents

theorem Site.TargetHas.valid {qualifier : Option String} {name : String} {type : Ty}
    (htarget : site.TargetHas locals name qualifier type) :
    site.hierarchy.validType false type = true :=
  htarget.all hsite.types.fields hlocals

/-- The type of an expression exists, and is `void` only if the expression is a call. -/
theorem FormHasType.valid {form : Form} {type : Ty} (hform : FormHasType site locals form type) :
    site.hierarchy.validType form.isCall type = true := by
  cases hform with
  | call _ hcall | callOn _ _ _ hcall =>
      obtain ⟨hmethod, _⟩ := hcall
      exact hsite.types.methods hmethod
  | new hclass => exact hclass
  | newArray _ helem => exact helem
  | cast _ _ _ hvalid => exact hvalid
  | assign htarget => exact htarget.valid hsite hlocals
  -- an array exists if its elements do
  | assignElem htarget => exact htarget.valid hsite hlocals
  | @binary op => cases op <;> rfl
  | @unary op => cases op <;> rfl
  | var hname => exact hname.valid hsite hlocals
  | field _ hfield => exact hfield.valid hsite
  | elem hname => exact hname.valid hsite hlocals
  | fieldElem _ hfield => exact hfield.valid hsite
  | str => exact hsite.types.string
  | instanceOf | int | bool | null => rfl

end Expressions

/-! ## Types of local variables -/

theorem StmtOk.typesExist {returns : Ty} {inLoop : Bool} {stmt : Stmt}
    (hstmt : StmtOk site returns inLoop locals stmt after)
    (hlocals : locals.TypesExist site.hierarchy) : after.TypesExist site.hierarchy := by
  cases hstmt with
  | @decl _ _ name type _ _ hvalid => exact Scopes.All.add hlocals name hvalid
  | _ => exact hlocals

end Typing

end ClassLang
