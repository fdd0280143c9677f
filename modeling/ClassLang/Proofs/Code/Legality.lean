/-
# Instructions are never illegal

A slot of an operation holds an operand, and the operator, mode or kind of the
operation says which class the slot requires. Construction submits all operands
of the operation and an edit submits what it is given, or, where only the
comparison changes, what the branch holds. What is submitted decides alone: a
violation is refused at the first violated slot and nothing is assigned, everything
else is accepted. That all slots are respected is an invariant of the setters, so it
holds after every history of edits.
-/

import Mathlib.Logic.Basic
import ClassLang.Code.Instruction

namespace ClassLang.Code

/-- The place of a slot in the order of examination: the target of a call comes
before its destination, the slots of all other shapes are in the order in which
the shape has them. -/
def Role.rank : Role → Nat
  | target => 0
  | destination => 1
  | left => 2
  | right => 3
  | base => 4
  | index => 5
  | source => 6
  | operand => 7
  | value => 8

/-- The operand that a call has for its target. -/
def CallTarget.operand : CallTarget → String
  | direct label => label
  | indirect variableName => variableName

/-- A direct call goes to a label; an indirect one takes the address from a
variable. -/
def CallTarget.operandClass : CallTarget → OperandClass
  | direct _ => .label
  | indirect _ => .var

namespace Operation

/-- The demand on the target of a call. -/
def targetDemand : CallTarget → Demand
  | .direct label => ⟨.target, .label, label⟩
  | .indirect variableName => ⟨.target, .var, variableName⟩

/-- The demands of an operation on its operands, in the order of examination. -/
def demands : Operation → List Demand
  | branch op left right _ _ =>
    [⟨.left, op.operandClass, left⟩, ⟨.right, op.operandClass, right⟩]
  | call target dest => targetDemand target :: dest.toList.map (⟨.destination, .var, ·⟩)
  | ret value => value.toList.map (⟨.value, .value, ·⟩)
  | param mode value => [⟨.value, mode.operandClass, value⟩]
  | load kind dest source =>
    [⟨.destination, .var, dest⟩, ⟨.source, kind.sourceClass, source⟩]
  | loadEntry dest base index =>
    [⟨.destination, .var, dest⟩, ⟨.base, .var, base⟩, ⟨.index, .varOrIndex, index⟩]
  | storeEntry base index source =>
    [⟨.base, .var, base⟩, ⟨.index, .varOrIndex, index⟩, ⟨.source, .value, source⟩]
  | unary op dest operand =>
    [⟨.destination, .var, dest⟩, ⟨.operand, op.operandClass, operand⟩]
  | binary op dest left right =>
    [⟨.destination, .var, dest⟩, ⟨.left, op.operandClass, left⟩,
      ⟨.right, op.operandClass, right⟩]

/-- An operation is legal when all its operands are as demanded. -/
def Legal (operation : Operation) : Prop :=
  ∀ demand ∈ operation.demands, demand.met = true

instance (operation : Operation) : Decidable operation.Legal :=
  inferInstanceAs (Decidable (∀ demand ∈ operation.demands, demand.met = true))

/-- The operand that a slot holds. -/
def operandIn? : Operation → Role → Option String
  | branch _ left _ _ _, .left => some left
  | branch _ _ right _ _, .right => some right
  | call target _, .target => some target.operand
  | call _ dest, .destination => dest
  | ret value, .value => value
  | param _ value, .value => some value
  | load _ dest _, .destination => some dest
  | load _ _ source, .source => some source
  | loadEntry dest _ _, .destination => some dest
  | loadEntry _ base _, .base => some base
  | loadEntry _ _ index, .index => some index
  | storeEntry base _ _, .base => some base
  | storeEntry _ index _, .index => some index
  | storeEntry _ _ source, .source => some source
  | unary _ dest _, .destination => some dest
  | unary _ _ operand, .operand => some operand
  | binary _ dest _ _, .destination => some dest
  | binary _ _ left _, .left => some left
  | binary _ _ _ right, .right => some right
  | _, _ => none

/-- The class that a slot requires, for the operator, mode or kind that the
operation has. -/
def required? : Operation → Role → Option OperandClass
  | branch op _ _ _ _, .left | branch op _ _ _ _, .right => some op.operandClass
  | call target _, .target => some target.operandClass
  | ret _, .value => some .value
  | param mode _, .value => some mode.operandClass
  | load kind _ _, .source => some kind.sourceClass
  | loadEntry _ _ _, .base | storeEntry _ _ _, .base => some .var
  | loadEntry _ _ _, .index | storeEntry _ _ _, .index => some .varOrIndex
  | storeEntry _ _ _, .source => some .value
  | unary op _ _, .operand => some op.operandClass
  | binary op _ _ _, .left | binary op _ _ _, .right => some op.operandClass
  | call _ _, .destination | load _ _ _, .destination | loadEntry _ _ _, .destination
  | unary _ _ _, .destination | binary _ _ _ _, .destination => some .var
  | _, _ => none

/-- The text is of the class that the slot requires. -/
def Suits (operation : Operation) (role : Role) (text : String) : Prop :=
  ∃ expected, operation.required? role = some expected ∧ expected.accepts text = true

/-- Every submitted operand suits its slot. -/
def Admits (operation : Operation) (submitted : Role → Option String) : Prop :=
  ∀ role text, submitted role = some text → operation.Suits role text

/-- The fault is the first submitted operand that does not suit its slot. -/
structure Refuses (operation : Operation) (submitted : Role → Option String)
    (fault : IllegalOperand) : Prop where
  opcode : fault.opcode = operation.opcode
  among : submitted fault.demand.role = some fault.demand.operand
  required : operation.required? fault.demand.role = some fault.demand.expected
  violated : fault.demand.expected.accepts fault.demand.operand = false
  first : ∀ role text, role.rank < fault.demand.role.rank → submitted role = some text →
    operation.Suits role text


/-- Of demands in the order of their slots, the first that fails is the one of least
rank. -/
theorem find?_eq_some_iff_rank {demands : List Demand} {demand : Demand} (fails : Demand → Bool)
    (hsorted : demands.Pairwise fun earlier later => earlier.role.rank < later.role.rank) :
    demands.find? fails = some demand ↔
      demand ∈ demands ∧ fails demand = true ∧
        ∀ other ∈ demands, other.role.rank < demand.role.rank → fails other = false := by
  induction demands with
  | nil => simp
  | cons head rest ih =>
      obtain ⟨hhead, hrest⟩ := List.pairwise_cons.mp hsorted
      cases hfails : fails head with
      | true =>
          rw [List.find?_cons_of_pos hfails]
          constructor
          · rintro ⟨⟩
            refine ⟨List.mem_cons_self, hfails, ?_⟩
            intro other hother hlt
            rcases List.mem_cons.mp hother with rfl | hother
            · exact absurd hlt (Nat.lt_irrefl _)
            · exact absurd hlt (Nat.lt_asymm (hhead other hother))
          · rintro ⟨hmem, -, hfirst⟩
            rcases List.mem_cons.mp hmem with rfl | hmem
            · rfl
            · have hpasses := hfirst head List.mem_cons_self (hhead demand hmem)
              exact absurd (hpasses.symm.trans hfails) Bool.false_ne_true
      | false =>
          have hnot : ¬ fails head = true := by simp [hfails]
          rw [List.find?_cons_of_neg hnot, ih hrest]
          constructor
          · rintro ⟨hmem, hfail, hfirst⟩
            refine ⟨List.mem_cons_of_mem _ hmem, hfail, ?_⟩
            intro other hother hlt
            rcases List.mem_cons.mp hother with rfl | hother
            · exact hfails
            · exact hfirst other hother hlt
          · rintro ⟨hmem, hfail, hfirst⟩
            rcases List.mem_cons.mp hmem with rfl | hmem
            · exact absurd hfail hnot
            · exact ⟨hmem, hfail, fun other hother => hfirst other (List.mem_cons_of_mem _ hother)⟩

end Operation

/-! ## Requiring one operand after the other -/

section Examination

variable {α β : Type} {opcode : Opcode} {demands more : List Demand} {value : α}

/-- The value, if all demands are met; else a refusal for the first that is not. -/
def examined (opcode : Opcode) (demands : List Demand) (value : α) : Except IllegalOperand α :=
  match demands.find? fun demand => !demand.met with
  | none => .ok value
  | some demand => .error ⟨opcode, demand⟩

theorem examined_bind {part : β} {next : β → Except IllegalOperand α}
    (hnext : next part = examined opcode more value) :
    (examined opcode demands part >>= next) = examined opcode (demands ++ more) value := by
  unfold examined at hnext ⊢
  rw [List.find?_append]
  cases demands.find? fun demand => !demand.met with
  | none => exact hnext
  | some demand => rfl

theorem require_eq_examined {role : Role} {expected : OperandClass} {operand : String} :
    require opcode role expected operand =
      examined opcode [⟨role, expected, operand⟩] operand := by
  unfold require examined
  cases hmet : expected.accepts operand <;> simp [Demand.met, hmet]

theorem requireOption_eq_examined {role : Role} {expected : OperandClass}
    {operand : Option String} :
    requireOption opcode role expected operand =
      examined opcode (operand.toList.map (⟨role, expected, ·⟩)) operand := by
  cases operand with
  | none => rfl
  | some text =>
      rw [requireOption, require_eq_examined]
      exact examined_bind rfl

theorem requireTarget_eq_examined {target : CallTarget} (dest : Option String) :
    requireTarget target =
      examined (Operation.call target dest).opcode [Operation.targetDemand target] target := by
  cases target <;> rw [requireTarget, require_eq_examined] <;> exact examined_bind rfl

/-- To require an operand first is to have one demand more. -/
theorem require_bind {role : Role} {expected : OperandClass} {operand : String}
    {next : String → Except IllegalOperand α}
    (hnext : next operand = examined opcode demands value) :
    (require opcode role expected operand >>= next) =
      examined opcode (⟨role, expected, operand⟩ :: demands) value := by
  rw [require_eq_examined]
  exact examined_bind hnext

theorem examined_eq_ok_iff {result : α} :
    examined opcode demands value = .ok result ↔
      (∀ demand ∈ demands, demand.met = true) ∧ value = result := by
  have hnone : (demands.find? fun demand => !demand.met) = none ↔
      ∀ demand ∈ demands, demand.met = true := by simp
  rw [← hnone]
  unfold examined
  cases demands.find? fun demand => !demand.met <;> simp

/-! ## Demands by slots -/

namespace Operation

variable {operation : Operation}

/-- The demands are those that the slots make on the submitted operands, in the order of
the slots. -/
structure Lists (operation : Operation) (demands : List Demand)
    (submitted : Role → Option String) : Prop where
  sorted : demands.Pairwise fun earlier later => earlier.role.rank < later.role.rank
  mem_iff : ∀ role expected text, ⟨role, expected, text⟩ ∈ demands ↔
    submitted role = some text ∧ operation.required? role = some expected
  exists_required : ∀ role text, submitted role = some text →
    ∃ expected, operation.required? role = some expected

namespace Lists

variable {submitted : Role → Option String} (hlists : operation.Lists demands submitted)

include hlists

theorem admits_iff : (∀ demand ∈ demands, demand.met = true) ↔ operation.Admits submitted := by
  constructor
  · intro hmet role text hsubmitted
    obtain ⟨expected, hrequired⟩ := hlists.exists_required role text hsubmitted
    have hdemand := (hlists.mem_iff role expected text).mpr ⟨hsubmitted, hrequired⟩
    exact ⟨expected, hrequired, hmet _ hdemand⟩
  · rintro hadmits ⟨role, expected, text⟩ hdemand
    obtain ⟨hsubmitted, hrequired⟩ := (hlists.mem_iff role expected text).mp hdemand
    obtain ⟨other, hother, haccepts⟩ := hadmits role text hsubmitted
    obtain rfl := Option.some.inj (hrequired.symm.trans hother)
    exact haccepts

/-- What is examined is refused for the first operand that does not suit its slot. -/
theorem refuses_iff (fault : IllegalOperand) :
    examined operation.opcode demands value = .error fault ↔
      operation.Refuses submitted fault := by
  have hfind : examined operation.opcode demands value = .error fault ↔
      fault.opcode = operation.opcode ∧
        (demands.find? fun demand => !demand.met) = some fault.demand := by
    unfold examined
    cases demands.find? fun demand => !demand.met with
    | none => simp
    | some demand => cases fault; simp [eq_comm]
  rw [hfind, find?_eq_some_iff_rank _ hlists.sorted]
  obtain ⟨opcode, role, expected, text⟩ := fault
  constructor
  · rintro ⟨hopcode, hmem, hviolated, hfirst⟩
    obtain ⟨hsubmitted, hrequired⟩ := (hlists.mem_iff role expected text).mp hmem
    refine ⟨hopcode, hsubmitted, hrequired, by simpa [Demand.met] using hviolated, ?_⟩
    intro other held hlt hother
    obtain ⟨wanted, hwanted⟩ := hlists.exists_required other held hother
    have hdemand := (hlists.mem_iff other wanted held).mpr ⟨hother, hwanted⟩
    have hmet := hfirst _ hdemand hlt
    exact ⟨wanted, hwanted, by simpa [Demand.met] using hmet⟩
  · rintro ⟨hopcode, hsubmitted, hrequired, hviolated, hfirst⟩
    refine ⟨hopcode, (hlists.mem_iff role expected text).mpr ⟨hsubmitted, hrequired⟩, ?_, ?_⟩
    · simpa [Demand.met] using hviolated
    · rintro ⟨other, wanted, held⟩ hdemand hlt
      obtain ⟨hother, hwanted⟩ := (hlists.mem_iff other wanted held).mp hdemand
      obtain ⟨_, hsome, haccepts⟩ := hfirst other held hlt hother
      obtain rfl := Option.some.inj (hwanted.symm.trans hsome)
      simpa [Demand.met] using haccepts

end Lists

variable (operation)

/-- The demands of an operation are those of its slots on what they hold. -/
theorem lists_demands : operation.Lists operation.demands operation.operandIn? where
  sorted := by
    cases operation with
    | call target dest => cases target <;> cases dest <;> simp [demands, targetDemand, Role.rank]
    | ret value => cases value <;> simp [demands]
    | branch | param | load | loadEntry | storeEntry | unary | binary => simp [demands, Role.rank]
  mem_iff role expected text := by
    cases operation with
    | call target dest =>
        cases target <;> cases dest <;> cases role <;>
          simp [demands, targetDemand, operandIn?, required?, CallTarget.operand,
            CallTarget.operandClass, eq_comm, and_comm]
    | ret value =>
        cases value <;> cases role <;> simp [demands, operandIn?, required?, eq_comm, and_comm]
    | branch | param | load | loadEntry | storeEntry | unary | binary =>
        cases role <;> simp [demands, operandIn?, required?, eq_comm, and_comm]
  exists_required role text hheld := by
    cases operation <;> cases role <;> simp_all [operandIn?, required?]

theorem legal_iff_admits : operation.Legal ↔ operation.Admits operation.operandIn? :=
  operation.lists_demands.admits_iff

/-! ## Setters -/

/-- A setter that requires first and then assigns fails as the requirement does, and then
has assigned nothing. -/
theorem apply_assign {β : Type} (required : Except IllegalOperand β) (place : β → Operation) :
    operation.apply (assign required place) =
      match required with
      | .ok part => (.ok (), place part)
      | .error fault => (.error fault, operation) := by
  cases required <;> rfl

/-- What a setter answers and leaves that makes a change once some demands are met. -/
def settled (operation changed : Operation) (demands : List Demand) :
    Except IllegalOperand Unit × Operation :=
  match examined changed.opcode demands changed with
  | .ok changed => (.ok (), changed)
  | .error fault => (.error fault, operation)

variable {operation}

/-- To assign what has been examined is to examine the change. -/
theorem apply_assign_examined {part : β} {place : β → Operation}
    (hopcode : opcode = (place part).opcode) :
    operation.apply (assign (examined opcode demands part) place) =
      operation.settled (place part) demands := by
  rw [apply_assign, settled, ← hopcode]
  unfold examined
  cases demands.find? fun demand => !demand.met <;> rfl

theorem apply_setComparison {op other : Comparison} {left right : String}
    {onTrue onFalse : BlockId} :
    (branch other left right onTrue onFalse).apply (setComparison op left right onTrue onFalse) =
      (branch other left right onTrue onFalse).settled (branch op left right onTrue onFalse)
        (branch op left right onTrue onFalse).demands := by
  have hrequired : (do
      let _ ← require .branch .left op.operandClass left
      let _ ← require .branch .right op.operandClass right
      return branch op left right onTrue onFalse : Except IllegalOperand Operation) =
        examined .branch (branch op left right onTrue onFalse).demands
          (branch op left right onTrue onFalse) :=
    require_bind (require_bind rfl)
  rw [settled, opcode, ← hrequired]
  -- the two operands are tested one after the other
  simp only [setComparison, require]
  cases op.operandClass.accepts left <;> cases op.operandClass.accepts right <;> rfl

theorem apply_setDestination {target : CallTarget} {dest old : Option String} :
    (call target old).apply (setDestination target dest) =
      (call target old).settled (call target dest) (dest.toList.map (⟨.destination, .var, ·⟩)) := by
  have hopcode : (call target old).opcode = (call target dest).opcode := by
    cases target <;> rfl
  show (call target old).apply (assign (requireOption (call target old).opcode _ _ dest) _) = _
  rw [hopcode, requireOption_eq_examined]
  exact apply_assign_examined rfl

theorem apply_setReturned {value old : Option String} :
    (ret old).apply (setReturned value) =
      (ret old).settled (ret value) (value.toList.map (⟨.value, .value, ·⟩)) := by
  rw [setReturned, requireOption_eq_examined]
  exact apply_assign_examined rfl

/-! ## Constructors -/

theorem filled_eq {start changed : Operation} {setter : Setter}
    (hsetter : start.apply setter = start.settled changed demands) :
    start.filled setter = examined changed.opcode demands changed := by
  rw [filled, hsetter, settled]
  cases examined changed.opcode demands changed <;> rfl

/-- A constructor examines the demands of the operation in their order. -/
theorem validate_eq_examined (operation : Operation) :
    operation.validate = examined operation.opcode operation.demands operation := by
  cases operation with
  | branch | load | unary => exact require_bind (require_bind rfl)
  | call target dest =>
      rw [validate, requireTarget_eq_examined dest]
      exact examined_bind (filled_eq apply_setDestination)
  | ret value => exact filled_eq apply_setReturned
  | param => exact require_bind rfl
  | loadEntry | storeEntry | binary => exact require_bind (require_bind (require_bind rfl))

/-- Exactly the legal operations are accepted, and as they are. -/
theorem validate_eq_ok_iff (operation result : Operation) :
    operation.validate = .ok result ↔ operation.Legal ∧ result = operation := by
  rw [validate_eq_examined, examined_eq_ok_iff, Legal, eq_comm]

end Operation

end Examination

/-! ## Edits -/

/-- The operation with the change made, legal or not, if it has the part that the edit is
for. -/
def Edit.onOperation? : Edit → Operation → Option Operation
  | comparison op, .branch _ left right onTrue onFalse =>
    some (.branch op left right onTrue onFalse)
  | blocks onTrue onFalse, .branch op left right _ _ =>
    some (.branch op left right onTrue onFalse)
  | operand .left text, .branch op _ right onTrue onFalse =>
    some (.branch op text right onTrue onFalse)
  | operand .right text, .branch op left _ onTrue onFalse =>
    some (.branch op left text onTrue onFalse)
  | target newTarget, .call _ dest => some (.call newTarget dest)
  | result dest, .call callee _ => some (.call callee dest)
  | returned value, .ret _ => some (.ret value)
  | operand .value text, .param mode _ => some (.param mode text)
  | operand .destination text, .load kind _ source => some (.load kind text source)
  | operand .source text, .load kind dest _ => some (.load kind dest text)
  | operand .destination text, .loadEntry _ base index => some (.loadEntry text base index)
  | operand .base text, .loadEntry dest _ index => some (.loadEntry dest text index)
  | operand .index text, .loadEntry dest base _ => some (.loadEntry dest base text)
  | operand .base text, .storeEntry _ index source => some (.storeEntry text index source)
  | operand .index text, .storeEntry base _ source => some (.storeEntry base text source)
  | operand .source text, .storeEntry base index _ => some (.storeEntry base index text)
  | operand .destination text, .unary op _ argument => some (.unary op text argument)
  | operand .operand text, .unary op dest _ => some (.unary op dest text)
  | operand .destination text, .binary op _ left right => some (.binary op text left right)
  | operand .left text, .binary op dest _ right => some (.binary op dest text right)
  | operand .right text, .binary op dest left _ => some (.binary op dest left text)
  | _, _ => none

/-- The operands that an edit submits for examination: those that it is given, and
for another comparison those that the branch holds. -/
def Edit.submitted : Edit → Operation → Role → Option String
  | comparison _, operation, role => operation.operandIn? role
  | target callee, _, .target => some callee.operand
  | result dest, _, .destination => dest
  | returned value, _, .value => value
  | operand place text, _, role => if role = place then some text else none
  | _, _, _ => none

section Edits

variable {edit : Edit} {operation changed : Operation}

/-- An edit puts what is submitted into the slots. -/
theorem Edit.operandIn?_of_submitted (hchanged : edit.onOperation? operation = some changed)
    {role : Role} {text : String} (hsubmitted : edit.submitted operation role = some text) :
    changed.operandIn? role = some text := by
  revert hchanged hsubmitted
  fun_cases Edit.onOperation? edit operation <;> rintro ⟨⟩ <;> cases role <;>
    simp [Edit.submitted, Operation.operandIn?]

/-- All other slots keep both their operand and what they require. -/
theorem Edit.submitted_or_kept (hchanged : edit.onOperation? operation = some changed)
    {role : Role} {text : String} (hheld : changed.operandIn? role = some text) :
    edit.submitted operation role = some text ∨
      operation.operandIn? role = some text ∧
        changed.required? role = operation.required? role := by
  revert hchanged hheld
  fun_cases Edit.onOperation? edit operation <;> rintro ⟨⟩ <;> cases role <;>
    simp +contextual [Edit.submitted, Operation.operandIn?, Operation.required?]

theorem Edit.suits_or_submitted (hlegal : operation.Legal)
    (hchanged : edit.onOperation? operation = some changed) {role : Role} {text : String}
    (hheld : changed.operandIn? role = some text) :
    edit.submitted operation role = some text ∨ changed.Suits role text := by
  rcases Edit.submitted_or_kept hchanged hheld with hsubmitted | ⟨hkept, hrequired⟩
  · exact .inl hsubmitted
  · obtain ⟨expected, hexpected, haccepts⟩ :=
      operation.legal_iff_admits.mp hlegal role text hkept
    exact .inr ⟨expected, hrequired.trans hexpected, haccepts⟩

/-- Of a legal operation, only what is submitted can make an edit illegal. -/
theorem Edit.legal_changed_iff (hlegal : operation.Legal)
    (hchanged : edit.onOperation? operation = some changed) :
    changed.Legal ↔ changed.Admits (edit.submitted operation) := by
  rw [changed.legal_iff_admits]
  constructor
  · intro hadmits role text hsubmitted
    exact hadmits role text (Edit.operandIn?_of_submitted hchanged hsubmitted)
  · intro hadmits role text hheld
    rcases Edit.suits_or_submitted hlegal hchanged hheld with hsubmitted | hsuits
    · exact hadmits role text hsubmitted
    · exact hsuits

/-- The demands on what is submitted. -/
def Edit.requests (edit : Edit) (operation changed : Operation) : List Demand :=
  changed.demands.filter fun demand => (edit.submitted operation demand.role).isSome

theorem Edit.lists_requests (hchanged : edit.onOperation? operation = some changed) :
    changed.Lists (edit.requests operation changed) (edit.submitted operation) where
  sorted := changed.lists_demands.sorted.filter _
  mem_iff role expected text := by
    rw [Edit.requests, List.mem_filter, changed.lists_demands.mem_iff]
    constructor
    · rintro ⟨⟨hheld, hrequired⟩, hsome⟩
      obtain ⟨other, hother⟩ := Option.isSome_iff_exists.mp hsome
      have heq := Edit.operandIn?_of_submitted hchanged hother
      rw [hheld] at heq
      rw [Option.some.inj heq]
      exact ⟨hother, hrequired⟩
    · rintro ⟨hsubmitted, hrequired⟩
      exact ⟨⟨Edit.operandIn?_of_submitted hchanged hsubmitted, hrequired⟩,
        by simp [hsubmitted]⟩
  exists_required role text hsubmitted :=
    changed.lists_demands.exists_required role text
      (Edit.operandIn?_of_submitted hchanged hsubmitted)

/-- Every edit has the setter that makes its change once its requests are met. -/
theorem Edit.setter?_settles (edit : Edit) (operation : Operation) :
    (edit.setter? operation).map operation.apply =
      (edit.onOperation? operation).map fun changed =>
        operation.settled changed (edit.requests operation changed) := by
  have hrequest {opcode : Opcode} {role : Role} {expected : OperandClass} {text : String}
      {place : String → Operation} (hopcode : opcode = (place text).opcode) :
      operation.apply (Operation.assign (require opcode role expected text) place) =
        operation.settled (place text) [⟨role, expected, text⟩] := by
    rw [require_eq_examined]
    exact Operation.apply_assign_examined hopcode
  cases edit with
  | comparison op =>
      cases operation with
      | branch => exact congrArg some Operation.apply_setComparison
      | _ => rfl
  | blocks onTrue onFalse =>
      cases operation with
      | branch => rfl
      | _ => rfl
  | target callee =>
      cases operation with
      | call old dest =>
          have hrequests : (Edit.target callee).requests (.call old dest) (.call callee dest) =
              [Operation.targetDemand callee] := by
            cases callee <;> cases dest <;> rfl
          simp only [Edit.setter?, Edit.onOperation?, Option.map_some, hrequests,
            requireTarget_eq_examined dest, Operation.apply_assign_examined]
      | _ => rfl
  | result dest =>
      cases operation with
      | call callee old =>
          have hrequests : (Edit.result dest).requests (.call callee old) (.call callee dest) =
              dest.toList.map (⟨.destination, .var, ·⟩) := by
            cases callee <;> cases dest <;> rfl
          simp only [Edit.setter?, Edit.onOperation?, Option.map_some, hrequests,
            Operation.apply_setDestination]
      | _ => rfl
  | returned value =>
      cases operation with
      | ret old =>
          have hrequests : (Edit.returned value).requests (.ret old) (.ret value) =
              value.toList.map (⟨.value, .value, ·⟩) := by
            cases value <;> rfl
          simp only [Edit.setter?, Edit.onOperation?, Option.map_some, hrequests,
            Operation.apply_setReturned]
      | _ => rfl
  | operand role text =>
      -- the setters of one operand differ in the place and its class only
      cases operation <;> cases role <;> first | exact congrArg some (hrequest rfl) | rfl

end Edits

namespace Instruction

/-- Construction accepts exactly the legal operations. -/
theorem make_eq_ok_iff (operation : Operation) (instruction : Instruction) :
    make operation = .ok instruction ↔
      operation.Legal ∧ instruction = { operation := operation } := by
  unfold make
  constructor
  · intro hmake
    cases hvalidate : operation.validate with
    | error fault =>
        rw [hvalidate] at hmake
        cases hmake
    | ok result =>
        obtain ⟨hlegal, rfl⟩ := (operation.validate_eq_ok_iff result).mp hvalidate
        rw [hvalidate] at hmake
        exact ⟨hlegal, (Except.ok.inj hmake).symm⟩
  · rintro ⟨hlegal, rfl⟩
    rw [(operation.validate_eq_ok_iff operation).mpr ⟨hlegal, rfl⟩]
    rfl

theorem make_eq_error_iff (operation : Operation) (fault : IllegalOperand) :
    make operation = .error fault ↔ operation.Refuses operation.operandIn? fault := by
  rw [← operation.lists_demands.refuses_iff fault, make, operation.validate_eq_examined]
  cases examined operation.opcode operation.demands operation <;> simp [Except.map]

/-- The setters of an instruction make the changes of its operation. -/
theorem edit?_eq (instruction : Instruction) (edit : Edit) :
    instruction.edit? edit = (edit.onOperation? instruction.operation).map fun changed =>
      Prod.map id (fun operation => { instruction with operation })
        (instruction.operation.settled changed (edit.requests instruction.operation changed)) := by
  have hsettles := edit.setter?_settles instruction.operation
  have hmap := congrArg
    (Option.map (Prod.map id fun operation => { instruction with operation })) hsettles
  rwa [Option.map_map, Option.map_map] at hmap

section Edits

variable {instruction : Instruction} {edit : Edit} {changed : Operation}

theorem edit?_eq_ok_iff (hchanged : edit.onOperation? instruction.operation = some changed) :
    instruction.edit? edit = some (.ok (), { instruction with operation := changed }) ↔
      changed.Admits (edit.submitted instruction.operation) := by
  rw [edit?_eq, hchanged, Option.map_some, ← (Edit.lists_requests hchanged).admits_iff,
    Operation.settled]
  cases hexamined : examined changed.opcode
      (edit.requests instruction.operation changed) changed with
  | ok result =>
      obtain ⟨hmet, rfl⟩ := examined_eq_ok_iff.mp hexamined
      exact iff_of_true rfl hmet
  | error fault =>
      refine iff_of_false nofun fun hmet => ?_
      rw [examined_eq_ok_iff.mpr ⟨hmet, rfl⟩] at hexamined
      cases hexamined

theorem edit?_eq_error_iff (hchanged : edit.onOperation? instruction.operation = some changed)
    (fault : IllegalOperand) :
    (∃ after, instruction.edit? edit = some (.error fault, after)) ↔
      changed.Refuses (edit.submitted instruction.operation) fault := by
  rw [edit?_eq, hchanged, Option.map_some, ← (Edit.lists_requests hchanged).refuses_iff fault,
    Operation.settled]
  cases examined changed.opcode (edit.requests instruction.operation changed) changed <;> simp

/-- A setter that fails has assigned nothing. -/
theorem eq_of_edit?_error {fault : IllegalOperand} {after : Instruction}
    (hedit : instruction.edit? edit = some (.error fault, after)) : after = instruction := by
  rw [edit?_eq] at hedit
  obtain ⟨changed, _, hsettled⟩ := Option.map_eq_some_iff.mp hedit
  unfold Operation.settled at hsettled
  split at hsettled
  · cases hsettled
  · cases hsettled
    rfl

/-- An edit leaves an instruction with a legal operation, whatever its setter answers. -/
theorem legal_edited (edit : Edit) (hlegal : instruction.operation.Legal) :
    (instruction.edited edit).operation.Legal := by
  rw [edited, edit?_eq]
  cases hchanged : edit.onOperation? instruction.operation with
  | none => exact hlegal
  | some changed =>
      rw [Option.map_some, Option.elim_some, Operation.settled]
      split
      next result hexamined =>
        -- what was submitted suits, and the other slots are as they were
        obtain ⟨hmet, rfl⟩ := examined_eq_ok_iff.mp hexamined
        exact (Edit.legal_changed_iff hlegal hchanged).mpr
          ((Edit.lists_requests hchanged).admits_iff.mp hmet)
      next => exact hlegal

end Edits

theorem legal_foldl_edited {instruction : Instruction} (edits : List Edit)
    (hlegal : instruction.operation.Legal) :
    (edits.foldl edited instruction).operation.Legal := by
  induction edits generalizing instruction with
  | nil => exact hlegal
  | cons edit edits ih => exact ih (legal_edited edit hlegal)

/-- What edits can do to an instruction: its operands suit their slots, and a setter is
judged by what it submits alone. -/
structure Guarded (instruction : Instruction) : Prop where
  suits : instruction.operation.Admits instruction.operation.operandIn?
  applies : ∀ edit, instruction.edit? edit = none ↔
    edit.onOperation? instruction.operation = none
  accepted : ∀ edit changed, edit.onOperation? instruction.operation = some changed →
    (instruction.edit? edit = some (.ok (), { instruction with operation := changed }) ↔
      changed.Admits (edit.submitted instruction.operation))
  refused : ∀ edit changed, edit.onOperation? instruction.operation = some changed →
    ∀ fault, (∃ after, instruction.edit? edit = some (.error fault, after)) ↔
      changed.Refuses (edit.submitted instruction.operation) fault
  unchanged : ∀ edit fault after, instruction.edit? edit = some (.error fault, after) →
    after = instruction

theorem guarded_of_legal {instruction : Instruction} (hlegal : instruction.operation.Legal) :
    instruction.Guarded where
  suits := instruction.operation.legal_iff_admits.mp hlegal
  applies edit := by rw [edit?_eq, Option.map_eq_none_iff]
  accepted _ _ := edit?_eq_ok_iff
  refused _ _ := edit?_eq_error_iff
  unchanged _ _ _ := eq_of_edit?_error

/-- Construction accepts an operation whose operands suit their slots and refuses
any other for the first that does not; what it makes stays guarded through every
sequence of edits. -/
theorem make_guarded (operation : Operation) :
    (∀ made, make operation = .ok made ↔
      operation.Admits operation.operandIn? ∧ made = { operation := operation }) ∧
    (∀ fault, make operation = .error fault ↔
      operation.Refuses operation.operandIn? fault) ∧
    ∀ made, make operation = .ok made →
      ∀ edits : List Edit, (edits.foldl edited made).Guarded := by
  refine ⟨?_, make_eq_error_iff operation, ?_⟩
  · intro made
    rw [make_eq_ok_iff, operation.legal_iff_admits]
  · intro made hmade edits
    obtain ⟨hlegal, rfl⟩ := (make_eq_ok_iff operation made).mp hmade
    exact guarded_of_legal (legal_foldl_edited edits hlegal)

/-- A branch on equality with a boolean. Only once its right operand is a number
can the comparison become an order. -/
theorem make_guarded_branch :
    make (.branch .eq "x$l" "true" ⟨0⟩ ⟨1⟩) = .ok ⟨.branch .eq "x$l" "true" ⟨0⟩ ⟨1⟩, []⟩ ∧
      ([Edit.comparison .lt, .operand .right "3", .comparison .lt, .operand .left "false"].foldl
        edited ⟨.branch .eq "x$l" "true" ⟨0⟩ ⟨1⟩, []⟩) = ⟨.branch .lt "x$l" "3" ⟨0⟩ ⟨1⟩, []⟩ ∧
      Guarded ⟨.branch .lt "x$l" "3" ⟨0⟩ ⟨1⟩, []⟩ := by
  have hmade : make (.branch .eq "x$l" "true" ⟨0⟩ ⟨1⟩) =
      .ok ⟨.branch .eq "x$l" "true" ⟨0⟩ ⟨1⟩, []⟩ :=
    (make_eq_ok_iff _ _).mpr ⟨by decide +kernel, rfl⟩
  have hedited : [Edit.comparison .lt, .operand .right "3", .comparison .lt,
      .operand .left "false"].foldl edited ⟨.branch .eq "x$l" "true" ⟨0⟩ ⟨1⟩, []⟩ =
        ⟨.branch .lt "x$l" "3" ⟨0⟩ ⟨1⟩, []⟩ := by decide +kernel
  refine ⟨hmade, hedited, ?_⟩
  rw [← hedited]
  exact (make_guarded _).2.2 _ hmade _

end Instruction

end ClassLang.Code
