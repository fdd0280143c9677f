/-
# Deciding the rules on single types

Each check on types already found decides the rule that it stands for: it reports
nothing exactly if the rule holds, and then gives the type that the rule says. The
checks that pass over the error type do so only where the types before them are free
of it.
-/

import ClassLang.Proofs.Diagnostic.Reporting
import ClassLang.Proofs.Typing.Rules

namespace ClassLang.Typing.Site

open CheckM

variable {site : Site} {given : Prop} {line : Nat}

/-! ## Requirements -/

/-- A fault that leaves the error type behind. -/
theorem decides_report_pure {α β : Type} {view : α → β} {fault : Fault} {value : α}
    {holds : β → Prop} (hholds : ∀ seen, ¬ holds seen) :
    Decides given view (site.report line fault >>= fun _ => pure value) holds :=
  (Decides.report_bind fun _ => .pure value).congr fun _ seen => iff_of_false id (hholds seen)

theorem decides_require (condition : Bool) (fault : Fault) :
    Decides given (fun _ => ()) (site.require condition line fault) fun _ => condition = true :=
  .require condition _

theorem decides_requireCompatible (use : Use) (expected actual : Ty) :
    Decides given (fun _ => ()) (site.requireCompatible line use expected actual) fun _ =>
      site.hierarchy.compatible expected actual = true := by
  unfold requireCompatible
  split
  next hsuits => exact (Decides.pure ()).congr fun _ _ => by simp [hsuits]
  next hsuits =>
    refine (Decides.report_bind fun _ => ?_).congr fun _ _ => iff_of_false id hsuits
    exact .bind (.require _ _) fun _ => .require _ _

/-- One type is asked for, and the error type passed over. -/
theorem decides_requireType {found : Ty} (required : Ty) (fault : Fault) :
    Decides (found.errorFree = true) (fun _ => ())
      (site.require (found == required || found.isError) line fault) fun _ => found = required := by
  refine (decides_require _ fault).congr fun hfound _ => ?_
  simp [Ty.isError_eq_false hfound]

theorem decides_requireBoolean (found : Ty) (construct : Construct) :
    Decides (found.errorFree = true) (fun _ => ()) (site.requireBoolean line construct found)
      fun _ => found = .boolean :=
  decides_requireType .boolean _

theorem decides_requireInt (found : Ty) (quantity : Quantity) :
    Decides (found.errorFree = true) (fun _ => ()) (site.requireInt line quantity found)
      fun _ => found = .int :=
  decides_requireType .int _

/-- What follows on a written type is decided if the type exists. -/
theorem decides_writtenType_bind {α β : Type} {view : α → β} {next : Ty → CheckM α}
    {holds : Ty → β → Prop} {place : TypePlace} {type : Ty}
    (hnext : ∀ found, Decides (given ∧ type = found) view (next found) (holds found)) :
    Decides given view (site.writtenType line place type >>= next) fun seen =>
      site.hierarchy.validType false type = true ∧ holds type seen := by
  cases hvalid : site.hierarchy.validType false type with
  | true =>
      simp only [writtenType, hvalid, if_true, pure_bind]
      exact ((hnext type).of_given fun h => ⟨h, rfl⟩).congr fun _ _ => by simp
  | false =>
      simp only [writtenType, hvalid]
      exact (Decides.report_bind fun _ => (hnext .error).reporting).congr fun _ _ => by simp

/-! ## Names and fields -/

theorem decides_fieldType (className name : String) :
    Decides given id (site.fieldType line className name) fun found =>
      site.hierarchy.field? className name = some found := by
  unfold fieldType
  cases hfield : site.hierarchy.field? className name with
  | none => exact decides_report_pure fun _ => nofun
  | some type => exact (Decides.pure type).congr fun _ _ => by simp

theorem decides_variableType (locals : Scopes Ty) (name : String) :
    Decides given id (site.variableType locals line name) (site.VariableHas locals name) := by
  have hiff (found : Ty) : (locals.lookup name).or (site.hierarchy.field? site.className name) =
      some found ↔ site.VariableHas locals name found := by
    rw [Option.or_eq_some_iff]
    constructor
    · rintro (hlocal | ⟨hlocal, hfield⟩)
      · exact .ofLocal hlocal
      · exact .ofField hlocal hfield
    · rintro (hlocal | ⟨hlocal, hfield⟩)
      · exact .inl hlocal
      · exact .inr ⟨hlocal, hfield⟩
  simp only [variableType]
  split
  next type hfound =>
    exact (Decides.pure type).congr fun _ found => by rw [← hiff, hfound]; simp
  next hnone =>
    refine decides_report_pure fun found hfound => ?_
    rw [← hiff, hnone] at hfound
    cases hfound

/-- What follows on the parent is decided if there is one. -/
theorem decides_superclass_bind {α β : Type} {view : α → β} {next : Option String → CheckM α}
    {holds : String → β → Prop}
    (hnext : ∀ parent, Decides given view (next (some parent)) (holds parent))
    (hnone : Reporting (next none)) :
    Decides given view (site.superclass line >>= next) fun seen =>
      ∃ parent, site.parent? = some parent ∧ holds parent seen := by
  cases hparent : site.parent? with
  | none =>
      simp only [superclass, hparent, bind_assoc, pure_bind]
      refine (Decides.report_bind fun _ => hnone).congr fun _ _ => ?_
      simp
  | some parent =>
      simp only [superclass, hparent, pure_bind]
      exact (hnext parent).congr fun _ _ => by simp

theorem nameHas_iff {locals : Scopes Ty} {name : String} {type : Ty} :
    site.NameHas locals name type ↔
      if name = "this" then .named site.className = type
      else if name = "super" then ∃ parent, site.parent? = some parent ∧ .named parent = type
      else site.VariableHas locals name type := by
  constructor
  · intro hname
    cases hname with
    | this => simp
    | super hparent => simp [hparent]
    | ofVariable hthis hsuper hvariable => simpa [hthis, hsuper] using hvariable
  · intro hname
    split at hname
    next hthis => exact hthis ▸ hname ▸ .this
    split at hname
    next hsuper =>
      obtain ⟨parent, hparent, rfl⟩ := hname
      exact hsuper ▸ .super hparent
    next hthis hsuper => exact .ofVariable hthis hsuper hname

theorem decides_nameType (locals : Scopes Ty) (name : String) :
    Decides given id (site.nameType locals line name) (site.NameHas locals name) := by
  unfold nameType
  split
  next hthis =>
    refine (Decides.pure (Ty.named site.className)).congr fun _ found => ?_
    rw [nameHas_iff, if_pos hthis, id]
  next hthis =>
    split
    next hsuper =>
      refine Decides.congr (decides_superclass_bind (fun parent => .pure (Ty.named parent))
        (.pure _)) fun _ found => ?_
      rw [nameHas_iff, if_neg hthis, if_pos hsuper]
      rfl
    next hsuper =>
      refine (decides_variableType locals name).congr fun _ found => ?_
      rw [nameHas_iff, if_neg hthis, if_neg hsuper]

theorem qualifies_iff {qualifier className : String} :
    site.Qualifies qualifier className ↔
      if qualifier = "this" then className = site.className
      else if qualifier = "super" then site.parent? = some className
      else className = qualifier := by
  constructor
  · intro hqualifies
    cases hqualifies with
    | this => simp
    | super hparent => simp [hparent]
    | ofClass hthis hsuper => simp [hthis, hsuper]
  · intro hqualifies
    split at hqualifies
    next hthis => exact hthis ▸ hqualifies ▸ .this
    split at hqualifies
    next hsuper => exact hsuper ▸ .super hqualifies
    next hthis hsuper =>
      subst hqualifies
      exact .ofClass hthis hsuper

theorem targetHas_some_iff {locals : Scopes Ty} {qualifier name : String} {type : Ty} :
    site.TargetHas locals name (some qualifier) type ↔
      ∃ className, site.Qualifies qualifier className ∧
        site.hierarchy.field? className name = some type := by
  constructor
  · rintro (_ | ⟨hclass, hfield⟩)
    exact ⟨_, hclass, hfield⟩
  · rintro ⟨className, hclass, hfield⟩
    exact .field hclass hfield

theorem decides_targetType (locals : Scopes Ty) (qualifier : Option String) (name : String) :
    Decides given id (site.targetType locals line qualifier name)
      (site.TargetHas locals name qualifier) := by
  cases qualifier with
  | none =>
      refine (decides_variableType locals name).congr fun _ found => ?_
      constructor
      · exact .ofVariable
      · rintro ⟨hvariable⟩
        exact hvariable
  | some qualifier =>
      simp only [targetType]
      split
      next hthis =>
        refine (decides_fieldType site.className name).congr fun _ found => ?_
        simp [targetHas_some_iff, qualifies_iff, hthis]
      next hthis =>
        split
        next hsuper =>
          refine Decides.congr (decides_superclass_bind
            (fun parent => decides_fieldType parent name) (.pure _)) fun _ found => ?_
          simp [targetHas_some_iff, qualifies_iff, hsuper]
        next hsuper =>
          split
          next hknown =>
            refine (decides_fieldType qualifier name).congr fun _ found => ?_
            simp [targetHas_some_iff, qualifies_iff, hthis, hsuper]
          next hknown =>
            -- A class that is not known has no fields either.
            have hnone : site.hierarchy.get? qualifier = none := by
              simpa [Hierarchy.contains] using hknown
            refine decides_report_pure fun found => ?_
            simp [targetHas_some_iff, qualifies_iff, hthis, hsuper, Hierarchy.field?, hnone]

theorem decides_accessType (found : Ty) (name : String) :
    Decides (found.errorFree = true) id (site.accessType line name found)
      (site.FieldHas name found) := by
  cases found with
  | named className =>
      refine (decides_fieldType className name).congr fun _ type => ?_
      constructor
      · exact .ofClass
      · rintro (_ | hfield)
        exact hfield
  | array elem =>
      simp only [accessType]
      split
      next hname =>
        refine (Decides.pure Ty.int).congr fun _ type => ?_
        constructor
        · rintro rfl
          exact .length hname
        · rintro ⟨⟩
          rfl
      next hname =>
        refine decides_report_pure fun _ => ?_
        rintro ⟨hlength⟩
        exact hname hlength
  | error => exact .of_not_given (by decide) (.pure _)
  | void | int | boolean | null => exact decides_report_pure fun _ => nofun

theorem decides_elemType (found : Ty) (name : String) :
    Decides (found.errorFree = true) id (site.elemType line name found) fun elem =>
      found = .array elem := by
  cases found with
  | array elem => exact (Decides.pure elem).congr fun _ _ => by simp
  | error => exact .of_not_given (by decide) (.pure _)
  | void | int | boolean | null | named => exact decides_report_pure fun _ => nofun

/-! ## Calls -/

theorem decides_receiverClass (found : Ty) (method : String) :
    Decides (found.errorFree = true) id (site.receiverClass line method found) fun receiver =>
      ∃ className, receiver = some className ∧ Receives found className := by
  cases found with
  | named className =>
      refine (Decides.pure (some className)).congr fun _ receiver => ?_
      constructor
      · rintro rfl
        exact ⟨className, rfl, .ofClass className⟩
      · rintro ⟨_, rfl, ⟨⟩⟩
        rfl
  | array elem =>
      refine (Decides.pure (some Ty.objectName)).congr fun _ receiver => ?_
      constructor
      · rintro rfl
        exact ⟨Ty.objectName, rfl, .ofArray elem⟩
      · rintro ⟨_, rfl, ⟨⟩⟩
        rfl
  | error => exact .of_not_given (by decide) (.pure _)
  | void | int | boolean | null =>
      refine decides_report_pure fun _ => ?_
      rintro ⟨_, _, ⟨⟩⟩

/-- Each argument is checked if there are as many as parameters. -/
theorem decides_checkArguments (method : String) (position : Nat) {params : List Param}
    {args : List Ty} (hlength : params.length = args.length) :
    Decides given (fun _ => ()) (site.checkArguments line method position params args) fun _ =>
      List.Forall₂ (fun (param : Param) arg =>
        site.hierarchy.compatible param.type arg = true) params args := by
  induction params generalizing position args with
  | nil =>
      obtain rfl := List.length_eq_zero_iff.mp hlength.symm
      exact (Decides.pure ()).congr fun _ _ => by simp
  | cons param params ih =>
      cases args with
      | nil => cases hlength
      | cons arg args =>
          have hrest := ih (position + 1) (Nat.succ.inj hlength)
          refine Decides.congr ((decides_requireCompatible _ param.type arg).bind_unit
            fun _ => hrest.of_given And.left) fun _ _ => ?_
          rw [List.forall₂_cons]

theorem decides_callType (className method : String) (args : List Ty) :
    Decides given id (site.callType line className method args)
      (site.CallHas className method args) := by
  simp only [callType]
  split
  next hnone =>
    refine decides_report_pure fun _ => ?_
    rintro ⟨hmethod, _⟩
    rw [hnone] at hmethod
    cases hmethod
  next sig hsig =>
    split
    next hlength =>
      refine Decides.congr ((decides_checkArguments method 1 hlength).bind_unit fun _ =>
        .pure sig.returnType) fun _ type => ?_
      constructor
      · rintro ⟨hargs, rfl⟩
        exact .intro hsig hargs
      · rintro ⟨hmethod, hargs⟩
        obtain rfl := Option.some.inj (hsig.symm.trans hmethod)
        exact ⟨hargs, rfl⟩
    next hlength =>
      refine decides_report_pure fun _ => ?_
      rintro ⟨hmethod, hargs⟩
      obtain rfl := Option.some.inj (hsig.symm.trans hmethod)
      exact hlength hargs.length_eq

theorem decides_callTypeOn (receiver : Option String) (method : String) (args : List Ty) :
    Decides (receiver ≠ none) id (site.callTypeOn line receiver method args) fun type =>
      ∃ className, receiver = some className ∧ site.CallHas className method args type := by
  cases receiver with
  | none => exact .of_not_given (fun h => h rfl) (.pure _)
  | some className => exact (decides_callType className method args).congr fun _ _ => by simp

/-! ## Operators -/

theorem takes_iff {op : BinaryOp} {left right : Ty} :
    site.Takes op left right ↔
      op.operandType = some left ∧ left = right ∨
        op.operandType = none ∧ site.comparable left right = true := by
  constructor
  · intro htakes
    cases htakes with
    | uniform hop => exact .inl ⟨hop, rfl⟩
    | related hop hkind hvoid hrelated =>
        refine .inr ⟨hop, ?_⟩
        simp [comparable, hkind, hvoid, hrelated]
  · rintro (⟨hop, rfl⟩ | ⟨hop, hcomparable⟩)
    · exact .uniform hop
    · simp only [comparable, Bool.and_eq_true, beq_iff_eq, bne_iff_ne, Bool.or_eq_true]
        at hcomparable
      exact .related hop hcomparable.1.1 hcomparable.1.2 hcomparable.2

theorem decides_binaryType (op : BinaryOp) (left right : Ty) :
    Decides (left.errorFree = true ∧ right.errorFree = true) id
      (site.binaryType line op left right) fun type =>
        site.Takes op left right ∧ op.resultType = type := by
  simp only [binaryType]
  split
  next herror =>
    refine .of_not_given ?_ (.pure _)
    rintro ⟨hleft, hright⟩
    simp [Ty.isError_eq_false hleft, Ty.isError_eq_false hright] at herror
  next =>
    split
    next required hop =>
      refine Decides.congr ((decides_require _ _).bind_unit fun _ => .pure op.resultType)
        fun _ type => ?_
      rw [takes_iff]
      simp only [hop]
      grind
    next hop =>
      refine Decides.congr ((decides_require _ _).bind_unit fun _ => .pure op.resultType)
        fun _ type => ?_
      rw [takes_iff]
      simp [hop]

theorem decides_unaryType (found : Ty) (op : UnaryOp) (isPlace : Bool) :
    Decides (found.errorFree = true) id (site.unaryType line op isPlace found) fun type =>
      found = op.operandType ∧ (op.needsPlace = true → isPlace = true) ∧ op.operandType = type := by
  refine (decides_requireType op.operandType _).bind_unit fun _ => ?_
  refine Decides.congr ((decides_require _ _).bind_unit fun _ => .pure op.operandType)
    fun _ type => ?_
  cases op.needsPlace <;> simp

/-! ## New objects and casts -/

theorem decides_newType (className : String) :
    Decides given id (site.newType line className) fun type =>
      site.hierarchy.contains className = true ∧ .named className = type := by
  unfold newType
  split
  next hknown => exact (Decides.pure (Ty.named className)).congr fun _ _ => by simp [hknown]
  next hknown => exact decides_report_pure fun _ h => hknown h.1

theorem decides_newArrayType (size : Ty) {elem : Ty} (helem : elem.errorFree = true) :
    Decides (size.errorFree = true) id (site.newArrayType line elem size) fun type =>
      size = .int ∧ site.hierarchy.validType false elem = true ∧ .array elem = type := by
  refine (decides_requireInt size .arraySize).bind_unit fun _ => ?_
  refine Decides.congr (decides_writtenType_bind fun _ => .pure _) fun _ type => ?_
  rw [Ty.isError_eq_false helem]
  rfl

theorem decides_instanceOfType (found target : Ty) :
    Decides (found.errorFree = true) id (site.instanceOfType line found target) fun type =>
      found.isPrimitive = false ∧ target.isPrimitive = false ∧
        site.hierarchy.validType false target = true ∧ .boolean = type := by
  simp only [instanceOfType]
  split
  next herror =>
    refine .of_not_given (fun hfound => ?_) (.pure _)
    rw [Ty.isError_eq_false hfound] at herror
    cases herror
  next =>
    split
    next hprimitive =>
      refine decides_report_pure fun _ => ?_
      rintro ⟨hfrom, hto, _⟩
      simp [hfrom, hto] at hprimitive
    next hprimitive =>
      refine Decides.congr (decides_writtenType_bind fun _ => .pure Ty.boolean) fun _ type => ?_
      simp only [Bool.or_eq_true, not_or, Bool.not_eq_true] at hprimitive
      simp [hprimitive]

theorem decides_castType (found : Ty) {target : Ty} (htarget : target.errorFree = true) :
    Decides given id (site.castType line found target) fun type =>
      found.isPrimitive = false ∧ target.isPrimitive = false ∧
        site.hierarchy.validType false target = true ∧
          (site.hierarchy.compatible target found = true ∨
            site.hierarchy.compatible found target = true) ∧ target = type := by
  simp only [castType]
  split
  next hprimitive =>
    refine decides_report_pure fun _ => ?_
    rintro ⟨hfrom, hto, _⟩
    simp [hfrom, hto] at hprimitive
  next hprimitive =>
    have herror : ¬ target.isError = true := by simp [Ty.isError_eq_false htarget]
    refine Decides.congr (decides_writtenType_bind fun written =>
      .ite_of_not (fun h => h.2 ▸ herror) (.pure _) ((decides_require _ _).bind_unit fun _ =>
        .pure written)) fun _ type => ?_
    simp only [Bool.or_eq_true, not_or, Bool.not_eq_true] at hprimitive
    simp [hprimitive]

end ClassLang.Typing.Site
