/-
# Rules on types that are less known

A type is blurred when it is replaced by the error type. Every rule that is satisfied by
some types is satisfied when they are blurred, and its answer is the same or blurred
itself. One relation between two checks says so, and it goes through sequences of checks;
there is one lemma for each rule.
-/

import ClassLang.Proofs.Typing.Agreement
import Mathlib.Data.List.Forall2

namespace ClassLang

/-! ## Blurred types -/

/-- The second type is the first one or the error type. -/
def Ty.Blurs (first second : Ty) : Prop :=
  second = first ∨ second = .error

namespace Ty.Blurs

theorem refl (type : Ty) : type.Blurs type :=
  .inl rfl

theorem error (type : Ty) : type.Blurs .error :=
  .inr rfl

end Ty.Blurs

/-- Both scopes have the same names, and the types of the second are blurred. -/
def Scope.Blurs (first second : Scope Ty) : Prop :=
  ∀ name, Option.Rel Ty.Blurs (first.lookup name) (second.lookup name)

/-- Both stacks have the same shape, and the types of the second are blurred. -/
structure Scopes.Blurs (first second : Scopes Ty) : Prop where
  inner : Scope.Blurs first.inner second.inner
  outer : List.Forall₂ Scope.Blurs first.outer second.outer

namespace Scopes.Blurs

variable {first second : Scopes Ty}

theorem peek (hblurs : first.Blurs second) (name : String) :
    Option.Rel Ty.Blurs (first.peek name) (second.peek name) :=
  hblurs.inner name

theorem lookup (hblurs : first.Blurs second) (name : String) :
    Option.Rel Ty.Blurs (first.lookup name) (second.lookup name) := by
  have hall : List.Forall₂ Scope.Blurs (first.inner :: first.outer)
      (second.inner :: second.outer) := .cons hblurs.inner hblurs.outer
  unfold Scopes.lookup
  generalize first.inner :: first.outer = scopes at hall ⊢
  generalize second.inner :: second.outer = others at hall ⊢
  induction hall with
  | nil => exact .none
  | @cons scope other _ _ hscope _ ih =>
      rw [List.findSome?_cons, List.findSome?_cons]
      have hname := hscope name
      generalize scope.lookup name = found at hname ⊢
      generalize other.lookup name = blurred at hname ⊢
      cases hname with
      | none => exact ih
      | some htype => exact .some htype

theorem enter (hblurs : first.Blurs second) : first.enter.Blurs second.enter :=
  ⟨fun _ => .none, .cons hblurs.inner hblurs.outer⟩

theorem leave (hblurs : first.Blurs second) : first.leave.Blurs second.leave := by
  obtain ⟨inner, outer⟩ := first
  obtain ⟨other, others⟩ := second
  obtain ⟨hinner, houter⟩ := hblurs
  cases houter with
  | nil => exact ⟨hinner, .nil⟩
  | cons hscope hscopes => exact ⟨hscope, hscopes⟩

theorem add (hblurs : first.Blurs second) (name : String) (type : Ty) :
    (first.add name type).Blurs (second.add name type) := by
  refine ⟨fun other => ?_, hblurs.outer⟩
  show Option.Rel Ty.Blurs ((first.add name type).peek other) ((second.add name type).peek other)
  rw [peek_add, peek_add]
  split
  · exact .some (.refl type)
  · exact hblurs.peek other

end Scopes.Blurs

/-! ## Checks that tolerate -/

namespace CheckM

variable {α β γ δ : Type} {given : Prop}

/-- The first check reports only, and where it is quiet the second is quiet too, with a
related result. This is for what is given, except that the first check reports only. -/
structure Tolerates (given : Prop) (first : CheckM α) (second : CheckM β)
    (related : α → β → Prop) : Prop where
  reporting : Reporting first
  of_quiet : given → ∀ {pass : Pass}, pass.stopped = false → ∀ {value : α},
    Quiet pass first value → ∃ other, Quiet pass second other ∧ related value other

theorem Returns.eq_of_quiet {check : CheckM α} {value result : α} (hcheck : Returns check value)
    {pass : Pass} (hquiet : Quiet pass check result) : result = value := by
  obtain ⟨records, hrecords⟩ := hcheck
  exact congrArg Prod.fst (hquiet.symm.trans (hrecords pass))

namespace Tolerates

variable {first : CheckM α} {second : CheckM β} {related : α → β → Prop}
  {next : α → CheckM γ} {later : β → CheckM δ} {after : γ → δ → Prop}

theorem pure {value : α} {other : β} (hrelated : given → related value other) :
    Tolerates given (Pure.pure value) (Pure.pure other) related where
  reporting := .pure value
  of_quiet := by
    intro hgiven pass _ result hquiet
    obtain rfl := quiet_pure_iff.mp hquiet
    exact ⟨other, rfl, hrelated hgiven⟩

theorem bind (hcheck : Tolerates given first second related)
    (hnext : ∀ value other,
      Tolerates (given ∧ related value other) (next value) (later other) after) :
    Tolerates given (first >>= next) (second >>= later) after := by
  have hreporting (value : α) : Reporting (next value) :=
    (hnext value (second.run { log := { limit := 0 } }).1).reporting
  refine ⟨.bind hcheck.reporting hreporting, ?_⟩
  intro hgiven pass hrunning result hquiet
  obtain ⟨value, hvalue, hresult⟩ :=
    (quiet_bind_iff hrunning hcheck.reporting hreporting).mp hquiet
  obtain ⟨other, hother, hrelated⟩ := hcheck.of_quiet hgiven hrunning hvalue
  obtain ⟨final, hfinal, hafter⟩ := (hnext value other).of_quiet ⟨hgiven, hrelated⟩ hrunning hresult
  refine ⟨final, ?_, hafter⟩
  show (later (second.run pass).1).run (second.run pass).2 = (final, pass)
  rw [hother]
  exact hfinal

/-- A step that nothing is shown of. -/
theorem bind_rule (hcheck : Tolerates given first second fun _ _ => True)
    (hnext : ∀ value other, Tolerates given (next value) (later other) after) :
    Tolerates given (first >>= next) (second >>= later) after := by
  apply hcheck.bind
  intro value other
  rw [and_true]
  exact hnext value other

/-- A step that is the same in both checks. -/
theorem bind_same {check : CheckM α} {next : α → CheckM γ} {later : α → CheckM δ}
    (hcheck : Agree check check)
    (hnext : ∀ value, Tolerates given (next value) (later value) after) :
    Tolerates given (check >>= next) (check >>= later) after := by
  obtain ⟨_, _, hyields, _⟩ := hcheck
  have hreporting (value : α) : Reporting (next value) := (hnext value).reporting
  refine ⟨.bind hyields.reporting hreporting, ?_⟩
  intro hgiven pass hrunning result hquiet
  obtain ⟨value, hvalue, hresult⟩ :=
    (quiet_bind_iff hrunning hyields.reporting hreporting).mp hquiet
  obtain ⟨final, hfinal, hafter⟩ := (hnext value).of_quiet hgiven hrunning hresult
  refine ⟨final, ?_, hafter⟩
  show (later (check.run pass).1).run (check.run pass).2 = (final, pass)
  rw [hvalue]
  exact hfinal

theorem unlessStopped {old changed : α} {other blurred : β}
    (hrelated : given → related changed blurred) :
    Tolerates given (CheckM.unlessStopped old changed) (CheckM.unlessStopped other blurred)
      related where
  reporting := .unlessStopped old changed
  of_quiet := by
    intro hgiven pass hrunning result hquiet
    obtain rfl := (quiet_unlessStopped_iff hrunning).mp hquiet
    exact ⟨blurred, (quiet_unlessStopped_iff hrunning).mpr rfl, hrelated hgiven⟩

theorem of_given {more : Prop} (hgiven : more → given)
    (hcheck : Tolerates given first second related) : Tolerates more first second related :=
  ⟨hcheck.reporting, fun hmore => hcheck.of_quiet (hgiven hmore)⟩

/-- For a check that is known to report only, what is given may be assumed. -/
theorem of_imp (hreporting : Agree first first)
    (hcheck : given → Tolerates True first second related) :
    Tolerates given first second related := by
  obtain ⟨_, _, hyields, _⟩ := hreporting
  exact ⟨hyields.reporting, fun hgiven => (hcheck hgiven).of_quiet trivial⟩

theorem same {check : CheckM α} {related : α → α → Prop} (hcheck : Agree check check)
    (hrefl : ∀ value, related value value) : Tolerates given check check related := by
  obtain ⟨_, _, hyields, _⟩ := hcheck
  exact ⟨hyields.reporting, fun _ _ _ value hquiet => ⟨value, hquiet, hrefl value⟩⟩

theorem ite {holds : Prop} [Decidable holds] {other : CheckM α} {blurred : CheckM β}
    (htrue : Tolerates given first second related)
    (hfalse : Tolerates given other blurred related) :
    Tolerates given (if holds then first else other) (if holds then second else blurred)
      related := by
  split
  · exact htrue
  · exact hfalse

/-- A check that begins with a report is not quiet. -/
theorem of_report (record : Diagnostic) {next : Unit → CheckM α} (hnext : ∀ u, Reporting (next u)) :
    Tolerates given (CheckM.report record >>= next) second related := by
  refine ⟨.bind (.report record) hnext, ?_⟩
  intro _ pass hrunning result hquiet
  obtain ⟨_, hreport, _⟩ := (quiet_bind_iff hrunning (.report record) hnext).mp hquiet
  exact absurd hreport (not_quiet_report hrunning record)

/-- What this means for a log: nothing is added to it the second time either. -/
theorem of_log (hcheck : Tolerates given first second related) (hgiven : given) {log : Log}
    (hlog : (first.runOn log).2.log = log) :
    (second.runOn log).2.log = log ∧ related (first.runOn log).1 (second.runOn log).1 := by
  have hquiet : Quiet { log := log } first (first.runOn log).1 :=
    hcheck.reporting.quiet_of_log rfl hlog
  obtain ⟨other, hother, hrelated⟩ := hcheck.of_quiet hgiven rfl hquiet
  have hrun : second.runOn log = (other, { log := log }) := hother
  rw [hrun]
  exact ⟨rfl, hrelated⟩

end Tolerates

end CheckM

/-! ## Rules on single types -/

namespace Typing

open CheckM

namespace Site

variable {site : Site} {line : Nat} {given : Prop} {α : Type}

/-- A rule on one type tolerates a blurred type if it tolerates the error type. -/
theorem tolerates_of_error {rule : Ty → CheckM α} {related : α → α → Prop} {found blurred : Ty}
    (hrule : ∀ found, Agree (rule found) (rule found)) (hrefl : ∀ value, related value value)
    (hfound : given → found.Blurs blurred)
    (herror : ∀ {pass : Pass}, pass.stopped = false → ∀ {value : α}, Quiet pass (rule found) value →
      ∃ other, Quiet pass (rule .error) other ∧ related value other) :
    Tolerates given (rule found) (rule blurred) related := by
  obtain ⟨_, _, hyields, _⟩ := hrule found
  refine ⟨hyields.reporting, ?_⟩
  intro hgiven pass hrunning value hquiet
  rcases hfound hgiven with rfl | rfl
  · exact ⟨value, hquiet, hrefl value⟩
  · exact herror hrunning hquiet

theorem returns_instanceOfType (found target : Ty) :
    Returns (site.instanceOfType line found target) .boolean := by
  have hwritten : Returns (site.writtenType line .instanceOf target)
      (if site.hierarchy.validType false target then target else .error) := by
    unfold writtenType
    split
    · exact .pure target
    · exact .bind (.report _) (.pure _)
  unfold instanceOfType
  split
  · exact .pure _
  · split
    · exact .bind (.report _) (.pure _)
    · exact .bind hwritten (.pure _)

theorem castType_eq {found target : Ty}
    (hreferences : (found.isPrimitive || target.isPrimitive) = false) :
    site.castType line found target = (do
      let target ← site.writtenType line .cast target
      if target.isError then return .error
      else
        site.require
          (site.hierarchy.compatible target found || site.hierarchy.compatible found target)
          line (.castUnrelated found target)
        return target) := by
  simp only [castType, hreferences, Bool.false_eq_true, if_false]

theorem tolerates_require {holds blurred : Bool} {fault other : Fault}
    (hholds : given → holds = true → blurred = true) :
    Tolerates given (site.require holds line fault) (site.require blurred line other)
      fun _ _ => True where
  reporting := .require _ _
  of_quiet hgiven _ hrunning _ hquiet :=
    ⟨(), (quiet_require_iff hrunning).mpr (hholds hgiven ((quiet_require_iff hrunning).mp hquiet)),
      trivial⟩

section Unary

variable {found blurred : Ty} (hfound : given → found.Blurs blurred)

include hfound

theorem tolerates_requireBoolean (construct : Construct) :
    Tolerates given (site.requireBoolean line construct found)
      (site.requireBoolean line construct blurred) fun _ _ => True :=
  tolerates_of_error (fun _ => agree_require _ _) (fun _ => trivial) hfound
    fun _ _ _ => ⟨(), rfl, trivial⟩

theorem tolerates_requireInt (quantity : Quantity) :
    Tolerates given (site.requireInt line quantity found)
      (site.requireInt line quantity blurred) fun _ _ => True :=
  tolerates_of_error (fun _ => agree_require _ _) (fun _ => trivial) hfound
    fun _ _ _ => ⟨(), rfl, trivial⟩

theorem tolerates_accessType (name : String) :
    Tolerates given (site.accessType line name found) (site.accessType line name blurred)
      Ty.Blurs :=
  tolerates_of_error (fun _ => agree_accessType (.refl _) name _) .refl hfound
    fun _ _ _ => ⟨.error, rfl, .error _⟩

theorem tolerates_elemType (name : String) :
    Tolerates given (site.elemType line name found) (site.elemType line name blurred) Ty.Blurs :=
  tolerates_of_error (fun _ => agree_elemType name _) .refl hfound
    fun _ _ _ => ⟨.error, rfl, .error _⟩

/-- On a blurred receiver the method may not be looked up at all. -/
theorem tolerates_receiverClass (method : String) :
    Tolerates given (site.receiverClass line method found)
      (site.receiverClass line method blurred) fun first second => second = first ∨ second = none :=
  tolerates_of_error (fun _ => agree_receiverClass method _) (fun _ => .inl rfl) hfound
    fun _ _ _ => ⟨none, rfl, .inr rfl⟩

theorem tolerates_unaryType (op : UnaryOp) (isPlace : Bool) :
    Tolerates given (site.unaryType line op isPlace found)
      (site.unaryType line op isPlace blurred) Ty.Blurs := by
  apply tolerates_of_error (fun _ => @agree_unaryType site site.hierarchy line op isPlace _)
    .refl hfound
  intro pass hrunning value hquiet
  have hrest (_ : Unit) :
      Reporting (site.require (!op.needsPlace || isPlace) line (.notPlace op) >>= fun _ =>
        pure op.operandType) := .bind (.require _ _) fun _ => .pure _
  obtain ⟨_, _, hplace⟩ := (quiet_bind_iff hrunning (.require _ _) hrest).mp hquiet
  have hoperand : (Ty.error == op.operandType || Ty.error.isError) = true := Bool.or_true _
  exact ⟨value, (quiet_bind_iff hrunning (.require _ _) hrest).mpr
    ⟨(), (quiet_require_iff hrunning).mpr hoperand, hplace⟩, .refl value⟩

theorem tolerates_newArrayType (elem : Ty) :
    Tolerates given (site.newArrayType line elem found)
      (site.newArrayType line elem blurred) Ty.Blurs :=
  (tolerates_requireInt hfound .arraySize).bind fun _ _ =>
    .bind_same (agree_writtenType (.refl _) _ elem) fun _ => .pure fun _ => .refl _

theorem tolerates_instanceOfType (target : Ty) :
    Tolerates given (site.instanceOfType line found target)
      (site.instanceOfType line blurred target) Ty.Blurs := by
  apply tolerates_of_error (fun _ => agree_instanceOfType (.refl _) _ target) .refl hfound
  intro pass _ value hquiet
  obtain rfl := (returns_instanceOfType found target).eq_of_quiet hquiet
  exact ⟨.boolean, rfl, .refl _⟩

/-- What can be cast is no primitive, and neither is the error type. -/
theorem tolerates_castType (target : Ty) :
    Tolerates given (site.castType line found target)
      (site.castType line blurred target) Ty.Blurs := by
  cases hprimitive : (found.isPrimitive || target.isPrimitive) with
  | true =>
      have hreports : site.castType line found target =
          (site.report line (.castPrimitive found target) >>= fun _ => pure .error) := by
        simp only [castType, hprimitive, if_true]
      rw [hreports]
      exact .of_report _ fun _ => .pure _
  | false =>
      have htarget : (Ty.error.isPrimitive || target.isPrimitive) = false :=
        (Bool.or_eq_false_iff.mp hprimitive).2
      have herror : Tolerates True (site.castType line found target)
          (site.castType line .error target) Ty.Blurs := by
        rw [castType_eq hprimitive, castType_eq htarget]
        refine .bind_same (agree_writtenType (.refl _) _ target) fun target => ?_
        refine .ite (.pure fun _ => .refl _) (.bind (tolerates_require fun _ _ => ?_) fun _ _ => ?_)
        · exact Bool.or_eq_true_iff.mpr (.inr (by simp [Hierarchy.compatible]))
        · exact .pure fun _ => .refl _
      apply tolerates_of_error (fun _ => agree_castType (.refl _) _ target) .refl hfound
      intro pass hrunning value
      exact herror.of_quiet trivial hrunning

end Unary

/-! ## Rules on several types -/

theorem compatible_error (hierarchy : Hierarchy) (expected : Ty) :
    hierarchy.compatible expected .error = true := by
  cases expected <;> rfl

theorem compatible_of_blurs {hierarchy : Hierarchy} {expected actual blurredExpected blurred : Ty}
    (hexpected : expected.Blurs blurredExpected) (hactual : actual.Blurs blurred)
    (hcompatible : hierarchy.compatible expected actual = true) :
    hierarchy.compatible blurredExpected blurred = true := by
  rcases hexpected with rfl | rfl
  · rcases hactual with rfl | rfl
    · exact hcompatible
    · exact compatible_error hierarchy _
  · rfl

theorem tolerates_requireCompatible {expected actual blurredExpected blurred : Ty} (use : Use)
    (hexpected : given → expected.Blurs blurredExpected) (hactual : given → actual.Blurs blurred) :
    Tolerates given (site.requireCompatible line use expected actual)
      (site.requireCompatible line use blurredExpected blurred) fun _ _ => True := by
  cases hcompatible : site.hierarchy.compatible expected actual with
  | false =>
      have hreports : site.requireCompatible line use expected actual =
          (site.report line (.incompatible use expected actual) >>= fun _ => do
            site.require (site.hierarchy.validType true expected) line (.unknownType expected)
            site.require (site.hierarchy.validType true actual) line (.unknownType actual)) := by
        simp only [requireCompatible, hcompatible, Bool.false_eq_true, if_false]
      rw [hreports]
      exact .of_report _ fun _ => .bind (.require _ _) fun _ => .require _ _
  | true =>
      have hquiet {expected actual : Ty}
          (hcompatible : site.hierarchy.compatible expected actual = true) :
          site.requireCompatible line use expected actual = pure () := by
        simp only [requireCompatible, hcompatible, if_true]
      refine ⟨?_, fun hgiven pass _ _ _ => ⟨(), ?_, trivial⟩⟩
      · rw [hquiet hcompatible]
        exact .pure ()
      rw [hquiet (compatible_of_blurs (hexpected hgiven) (hactual hgiven) hcompatible)]
      rfl

theorem returns_binaryType (op : BinaryOp) (left right : Ty) :
    Returns (site.binaryType line op left right) op.resultType := by
  unfold binaryType
  split
  · exact .pure _
  · cases op.operandType with
    | none => exact .bind (.require _ _) (.pure _)
    | some required => exact .bind (.require _ _) (.pure _)

theorem tolerates_binaryType {left right blurredLeft blurredRight : Ty} (op : BinaryOp)
    (hleft : given → left.Blurs blurredLeft) (hright : given → right.Blurs blurredRight) :
    Tolerates given (site.binaryType line op left right)
      (site.binaryType line op blurredLeft blurredRight) Ty.Blurs := by
  obtain ⟨_, _, hyields, _⟩ := agree_binaryType (.refl site.hierarchy) op left right
  refine ⟨hyields.reporting, ?_⟩
  intro hgiven pass hrunning value hquiet
  obtain rfl := (returns_binaryType op left right).eq_of_quiet hquiet
  refine ⟨op.resultType, ?_, .refl _⟩
  have herror {left right : Ty} (herror : (left.isError || right.isError) = true) :
      Quiet pass (site.binaryType line op left right) op.resultType := by
    simp only [binaryType, herror, if_true]
    rfl
  rcases hleft hgiven with rfl | rfl
  · rcases hright hgiven with rfl | rfl
    · exact hquiet
    · exact herror (Bool.or_true _)
  · exact herror rfl

theorem tolerates_checkArguments {args blurred : List Ty}
    (hargs : List.Forall₂ Ty.Blurs args blurred) (method : String) (position : Nat)
    (params : List Param) :
    Tolerates given (site.checkArguments line method position params args)
      (site.checkArguments line method position params blurred) fun _ _ => True := by
  induction params generalizing position args blurred with
  | nil => exact .pure fun _ => trivial
  | cons param params ih =>
      cases hargs with
      | nil => exact .pure fun _ => trivial
      | cons harg hargs =>
          refine .bind (tolerates_requireCompatible _ (fun _ => .refl _) fun _ => harg)
            fun _ _ => ?_
          exact (ih hargs (position + 1)).of_given And.left

theorem tolerates_callType {args blurred : List Ty} (className method : String)
    (hargs : given → List.Forall₂ Ty.Blurs args blurred) :
    Tolerates given (site.callType line className method args)
      (site.callType line className method blurred) Ty.Blurs := by
  refine .of_imp (agree_callType (.refl _) className method args) fun hgiven => ?_
  replace hargs := hargs hgiven
  unfold callType
  cases site.hierarchy.method? className method with
  | none => exact .of_report _ fun _ => .pure _
  | some sig =>
      rw [hargs.length_eq]
      refine .ite ?_ (.of_report _ fun _ => .pure _)
      exact (tolerates_checkArguments hargs method 1 sig.params).bind fun _ _ =>
        .pure fun _ => .refl _

theorem tolerates_callTypeOn {className blurredName : Option String} {args blurred : List Ty}
    (method : String) (hname : given → blurredName = className ∨ blurredName = none)
    (hargs : given → List.Forall₂ Ty.Blurs args blurred) :
    Tolerates given (site.callTypeOn line className method args)
      (site.callTypeOn line blurredName method blurred) Ty.Blurs := by
  refine .of_imp (agree_callTypeOn (.refl _) className method args) fun hgiven => ?_
  rcases hname hgiven with rfl | rfl
  · cases blurredName with
    | none => exact .pure fun _ => .refl _
    | some className => exact tolerates_callType className method fun _ => hargs hgiven
  · obtain ⟨_, _, hyields, _⟩ := agree_callTypeOn (.refl site.hierarchy) className method args
    exact ⟨hyields.reporting, fun _ _ _ value _ => ⟨.error, rfl, .error value⟩⟩

/-! ## Names -/

section Names

variable {locals blurred : Scopes Ty} (hlocals : given → locals.Blurs blurred)

include hlocals

theorem tolerates_variableType (name : String) :
    Tolerates given (site.variableType locals line name)
      (site.variableType blurred line name) Ty.Blurs := by
  refine .of_imp (agree_variableType (.refl _) locals name) fun hgiven => ?_
  have hlookup := (hlocals hgiven).lookup name
  unfold variableType
  generalize locals.lookup name = found at hlookup ⊢
  generalize blurred.lookup name = other at hlookup ⊢
  cases hlookup with
  | some htype => exact .pure fun _ => htype
  | none =>
      cases site.hierarchy.field? site.className name with
      | none => exact .of_report _ fun _ => .pure _
      | some type => exact .pure fun _ => .refl type

theorem tolerates_nameType (name : String) :
    Tolerates given (site.nameType locals line name) (site.nameType blurred line name)
      Ty.Blurs := by
  refine .ite (.pure fun _ => .refl _) (.ite ?_ (tolerates_variableType hlocals name))
  refine .bind_same (agree_superclass (.refl _)) fun parent => ?_
  cases parent with
  | none => exact .pure fun _ => .refl _
  | some parent => exact .pure fun _ => .refl _

theorem tolerates_targetType (qualifier : Option String) (name : String) :
    Tolerates given (site.targetType locals line qualifier name)
      (site.targetType blurred line qualifier name) Ty.Blurs := by
  cases qualifier with
  | none => exact tolerates_variableType hlocals name
  | some qualifier =>
      -- a qualified name is a field, which no local variable hides
      exact .same (agree_targetType (.refl _) locals (some qualifier) name) .refl

end Names

/-! ## Rules of statements -/

/-- An absent type stays absent; any other is blurred. -/
theorem tolerates_requireInit {expected : Ty} {found blurred : Option Ty} (use : Use)
    (hfound : given → Option.Rel Ty.Blurs found blurred) :
    Tolerates given (site.requireInit line use expected found)
      (site.requireInit line use expected blurred) fun _ _ => True := by
  refine .of_imp (agree_requireInit (.refl _) use expected found) fun hgiven => ?_
  cases hfound hgiven with
  | none => exact .pure fun _ => trivial
  | some htype => exact tolerates_requireCompatible use (fun _ => .refl expected) fun _ => htype

theorem tolerates_requirePredicate {found blurred : Option Ty} (construct : Construct)
    (hfound : given → Option.Rel Ty.Blurs found blurred) :
    Tolerates given (site.requirePredicate line construct found)
      (site.requirePredicate line construct blurred) fun _ _ => True := by
  refine .of_imp (@agree_requirePredicate site site.hierarchy line construct found) fun hgiven => ?_
  cases hfound hgiven with
  | none => exact .pure fun _ => trivial
  | some htype => exact tolerates_requireBoolean (fun _ => htype) construct

theorem tolerates_requireResult {returns : Ty} {found blurred : Option Ty}
    (hfound : given → Option.Rel Ty.Blurs found blurred) :
    Tolerates given (site.requireResult line returns found)
      (site.requireResult line returns blurred) fun _ _ => True := by
  refine .of_imp (agree_requireResult (.refl _) returns found) fun hgiven => ?_
  cases hfound hgiven with
  | none => exact .same (@agree_require site site.hierarchy line _ _) fun _ => trivial
  | some htype =>
      refine .ite (.same (@agree_report site site.hierarchy line _) fun _ => trivial)
        (.ite ?_ (.pure fun _ => trivial))
      exact tolerates_requireCompatible .result (fun _ => .refl returns) fun _ => htype

end Site

theorem tolerates_declareLocal {site : Site} {given : Prop} {locals blurred : Scopes Ty}
    (hlocals : given → locals.Blurs blurred) (line : Nat) (name : String) (type : Ty) :
    Tolerates given (declareLocal site locals line name type)
      (declareLocal site blurred line name type) Scopes.Blurs := by
  refine .of_imp (@agree_declareLocal site site.hierarchy locals line name type) fun hgiven => ?_
  have hpeek := (hlocals hgiven).peek name
  unfold declareLocal
  generalize locals.peek name = found at hpeek ⊢
  generalize blurred.peek name = other at hpeek ⊢
  cases hpeek with
  | none => exact .unlessStopped fun _ => (hlocals hgiven).add name type
  | some _ => exact .of_report _ fun _ => .pure _

end Typing

end ClassLang
