/-
# Methods that override others

Every method is compared with the one that it hides when it is declared, so in a checked
program a class has all methods of its parent, each with the types that the parent gives
it. This goes up to all ancestors. A call sees nothing of a method but these types, so it
is the same on a class as on each of its ancestors, down to what is reported for it.
-/

import ClassLang.Proofs.Phases

namespace ClassLang

open CheckM Relation

/-! ## Methods with the same types -/

/-- Where the first finds a method the second finds one too, with the same types. -/
def Overrides (hidden found : String → Option Signature) : Prop :=
  ∀ method sig, hidden method = some sig →
    ∃ own, found method = some own ∧ own.agrees sig = true

namespace Overrides

variable {hidden middle found : String → Option Signature}

theorem refl (hidden : String → Option Signature) : Overrides hidden hidden := by
  intro method sig hsig
  exact ⟨sig, hsig, (sig.agrees_iff sig).mpr ⟨rfl, rfl⟩⟩

theorem trans (hfirst : Overrides hidden middle) (hsecond : Overrides middle found) :
    Overrides hidden found := by
  intro method sig hsig
  obtain ⟨inner, hinner, hfirst⟩ := hfirst method sig hsig
  obtain ⟨own, hown, hsecond⟩ := hsecond method inner hinner
  rw [Signature.agrees_iff] at hfirst hsecond
  have hagrees := And.intro (hsecond.1.trans hfirst.1) (hsecond.2.trans hfirst.2)
  exact ⟨own, hown, (own.agrees_iff sig).mpr hagrees⟩

/-- One more method, with the types of the method that it hides if there is one. -/
theorem add {methods : Scopes Signature} {name : String} {own : Signature}
    (hown : ∀ sig ∈ methods.lookup name, sig.agrees own = true) :
    Overrides methods.lookup (methods.add name own).lookup := by
  intro method sig hsig
  rw [Scopes.lookup_add]
  by_cases hname : method = name
  · rw [hname] at hsig
    have hagrees := hown sig hsig
    rw [Signature.agrees_iff] at hagrees
    rw [if_pos hname]
    exact ⟨own, rfl, (own.agrees_iff sig).mpr ⟨hagrees.1.symm, hagrees.2.symm⟩⟩
  · rw [if_neg hname]
    exact refl methods.lookup method sig hsig

end Overrides

namespace Hierarchy

variable {hierarchy : Hierarchy} {pass : Pass}

/-- Methods that are declared without a record keep the types of those that they hide. -/
theorem overrides_of_quiet (hrunning : pass.stopped = false) {decl : ClassDecl}
    {methods : List MethodDecl} {table after : Scopes Signature}
    (hquiet : Quiet pass (methods.foldlM (hierarchy.declareMethod decl) table) after) :
    Overrides table.lookup after.lookup := by
  have hstep (state : Scopes Signature) (method : MethodDecl) (next : Scopes Signature)
      (_ : method ∈ methods) (hstate : Overrides table.lookup state.lookup)
      (hmethod : Quiet pass (hierarchy.declareMethod decl state method) next) :
      Overrides table.lookup next.lookup ∧ True := by
    obtain ⟨_, _, hhidden, rfl⟩ := (decides_declareMethod decl state method).holds_of_quiet trivial
      hrunning hmethod
    exact ⟨hstate.trans (.add hhidden), trivial⟩
  exact (Quiet.foldlM hrunning (reporting_declareMethod decl) hstep (.refl _) hquiet).1

end Hierarchy

/-! ## Calls -/

namespace Typing.Site

/-- Arguments are compared with the types of parameters, and with nothing else. -/
theorem checkArguments_congr (site : Site) (line : Nat) (method : String) (position : Nat)
    {params others : List Param} (hparams : params.map Param.type = others.map Param.type)
    (args : List Ty) :
    site.checkArguments line method position params args =
      site.checkArguments line method position others args := by
  induction params generalizing others args position with
  | nil =>
      obtain rfl := List.map_eq_nil_iff.mp hparams.symm
      rfl
  | cons param params ih =>
      obtain ⟨other, others, rfl, htype, htypes⟩ := List.map_eq_cons_iff.mp hparams.symm
      cases args with
      | nil => rfl
      | cons arg args => rw [checkArguments, checkArguments, htype, ih (position + 1) htypes.symm]

theorem callType_congr (site : Site) {className other method : String} {sig own : Signature}
    (hsig : site.hierarchy.method? other method = some sig)
    (hown : site.hierarchy.method? className method = some own) (hagrees : own.agrees sig = true)
    (line : Nat) (args : List Ty) :
    site.callType line className method args = site.callType line other method args := by
  rw [Signature.agrees_iff] at hagrees
  have hlength : own.params.length = sig.params.length := by
    simpa [Signature.paramTypes] using congrArg List.length hagrees.2
  have harguments := site.checkArguments_congr line method 1 hagrees.2 args
  simp only [callType, hsig, hown, hlength, harguments, hagrees.1]

end Typing.Site

/-! ## Checked programs -/

namespace Analysis

variable {options : Options} {program annotated : Program} {base linked hierarchy : Hierarchy}

theorem Accepted.overrides_parent
    (haccepted : Accepted options program base linked hierarchy annotated) {name parent : String}
    (hparent : hierarchy.IsParent name parent) :
    Overrides (hierarchy.method? parent) (hierarchy.method? name) := by
  intro method sig hsig
  obtain ⟨info, hget, hinfo⟩ := Hierarchy.isParent_iff.mp hparent
  obtain ⟨above, habove, hlookup⟩ := Option.bind_eq_some_iff.mp hsig
  obtain ⟨decl, hdeclared⟩ := haccepted.declared hget
  have hmethods := hdeclared.methods
  rw [Hierarchy.inherited_eq_enter hinfo habove] at hmethods
  -- the new scope for the methods of the class does not hide anything by itself
  have hkept := Hierarchy.overrides_of_quiet rfl hmethods method sig hlookup
  rwa [Hierarchy.method?, hget]

theorem Accepted.overrides_ancestor
    (haccepted : Accepted options program base linked hierarchy annotated)
    {name ancestor : String} (hreach : ReflTransGen hierarchy.IsParent name ancestor) :
    Overrides (hierarchy.method? ancestor) (hierarchy.method? name) := by
  induction hreach using ReflTransGen.head_induction_on with
  | refl => exact .refl _
  | head hparent _ ih => exact ih.trans (haccepted.overrides_parent hparent)

/-- In a checked program a class answers to every method of an ancestor, with the types
that the ancestor gives it, and calls cannot tell the two classes apart. -/
theorem check_overriding (hresult : (check options program).result = .ok hierarchy)
    {name ancestor method : String} {sig : Signature}
    (hancestor : ReflTransGen hierarchy.IsParent name ancestor)
    (hsig : hierarchy.method? ancestor method = some sig) :
    (∃ own, hierarchy.method? name method = some own ∧ own.agrees sig = true) ∧
      ∀ className file line args,
        (Typing.Site.mk hierarchy className file).callType line name method args =
          (Typing.Site.mk hierarchy className file).callType line ancestor method args := by
  obtain ⟨base, linked, haccepted⟩ := exists_accepted hresult
  obtain ⟨own, hown, hagrees⟩ := haccepted.overrides_ancestor hancestor method sig hsig
  refine ⟨⟨own, hown, hagrees⟩, ?_⟩
  intro className file line args
  exact Typing.Site.callType_congr ⟨hierarchy, className, file⟩ hsig hown hagrees line args

/-- A method that is overridden two classes further down, under another name for its
parameter. -/
def scalingProgram : Program where
  classes :=
    [{ name := "Main", parent := some "Middle", file := "main", line := 1, members :=
        [.method ⟨"scale", .array .int, [⟨"factor", .int⟩],
            [.ret (some (.unchecked 2 .null)) 2], 2⟩,
          .method ⟨"main", .void, [], [], 3⟩] },
      { name := "Middle", parent := some "Top", file := "middle", line := 1 },
      { name := "Top", file := "top", line := 1, members :=
        [.method ⟨"scale", .array .int, [⟨"by", .int⟩],
          [.ret (some (.unchecked 2 (.newArray .int (.unchecked 2 (.var "by"))))) 2], 2⟩] }]

/-- The classes of the scaling program with their members. -/
def scalingClasses : Hierarchy :=
  (check {} scalingProgram).result.toOption.getD {}

theorem scalingProgram_overriding :
    ((check {} scalingProgram).result = .ok scalingClasses ∧
      scalingClasses.isSubclass "Main" "Top" = true ∧
      scalingClasses.method? "Top" "scale" =
        some ⟨"scale", "Top", [⟨"by", .int⟩], .array .int, 2⟩) ∧
    (∃ own, scalingClasses.method? "Main" "scale" = some own ∧
      own.agrees ⟨"scale", "Top", [⟨"by", .int⟩], .array .int, 2⟩ = true) ∧
    ∀ className file line args,
      (Typing.Site.mk scalingClasses className file).callType line "Main" "scale" args =
        (Typing.Site.mk scalingClasses className file).callType line "Top" "scale" args := by
  have hresult : (check {} scalingProgram).result = .ok scalingClasses := by decide +kernel
  have hsub : scalingClasses.isSubclass "Main" "Top" = true := by decide +kernel
  have hsig : scalingClasses.method? "Top" "scale" =
      some ⟨"scale", "Top", [⟨"by", .int⟩], .array .int, 2⟩ := by decide +kernel
  have hancestor := Hierarchy.reaches_of_isSubclass hsub
  exact ⟨⟨hresult, hsub, hsig⟩, check_overriding hresult hancestor hsig⟩

end Analysis

end ClassLang
