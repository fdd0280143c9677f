/-
# Compatibility as an order

Apart from the error type, which goes with everything, the types of a program are
partially ordered by what can be used where. Classes are ordered by their ancestors,
above them stands the root, which also takes arrays, and below all of them `null`. That
two types are not above each other rests on the class tree having no cycles, and that
arrays go no higher than the root on the root having no parent.
-/

import Mathlib.Order.Defs.Unbundled
import ClassLang.Hierarchy.Compatible
import ClassLang.Proofs.Hierarchy.Building

namespace ClassLang.Hierarchy

open Relation CheckM

variable {hierarchy : Hierarchy}

/-! ## What a type takes -/

/-- Types other than classes and arrays take themselves only. -/
theorem eq_of_compatible {expected actual : Ty}
    (hexpected : expected ∈ [Ty.void, .int, .boolean, .null]) (hactual : actual ≠ .error)
    (hcompatible : hierarchy.compatible expected actual = true) : expected = actual := by
  simp only [List.mem_cons, List.not_mem_nil, or_false] at hexpected
  rcases hexpected with rfl | rfl | rfl | rfl <;> cases actual <;> simp_all [compatible]

/-- An array takes `null` and arrays whose elements it could hold. -/
theorem compatible_array_iff {elem actual : Ty} (hactual : actual ≠ .error) :
    hierarchy.compatible (.array elem) actual = true ↔
      actual = .null ∨ ∃ other, actual = .array other ∧
        (elem = other ∨ elem.isReference = true ∧ other.isReference = true ∧
          hierarchy.compatible elem other = true) := by
  cases actual <;> simp_all [compatible, and_assoc]

/-- A class takes `null`, the classes below it, and arrays if it is the root. -/
theorem compatible_named_iff (hacyclic : hierarchy.Acyclic) {name : String} {actual : Ty}
    (hactual : actual ≠ .error) :
    hierarchy.compatible (.named name) actual = true ↔
      actual = .null ∨ (name = Ty.objectName ∧ ∃ elem, actual = .array elem) ∨
        ∃ sub, actual = .named sub ∧ ReflTransGen hierarchy.IsParent sub name := by
  cases actual with
  | error => exact absurd rfl hactual
  | named sub =>
      have hsub : name = sub ∨ hierarchy.isSubclass sub name = true ↔
          ReflTransGen hierarchy.IsParent sub name := by
        rw [isSubclass_iff hacyclic]
        constructor
        · rintro (rfl | ⟨_, hreach⟩)
          · exact .refl
          · exact hreach
        · intro hreach
          rcases hreach.cases_head with rfl | ⟨parent, hparent, _⟩
          · exact .inl rfl
          · exact .inr ⟨mem_names_of_isParent hparent, hreach⟩
      simp [compatible, hsub]
  | void | int | boolean | null | array elem => simp [compatible]

theorem ne_error_of_isReference {ty : Ty} (hreference : ty.isReference = true) :
    ty ≠ .error := by
  rintro rfl
  cases hreference

/-! ## The order -/

theorem antisymm_reaches (hacyclic : hierarchy.Acyclic) {name other : String}
    (habove : ReflTransGen hierarchy.IsParent name other)
    (hbelow : ReflTransGen hierarchy.IsParent other name) : name = other := by
  rcases habove.cases_head with heq | ⟨parent, hparent, hrest⟩
  · exact heq
  · exact absurd (.head' hparent (hrest.trans hbelow)) (hacyclic name)

/-- Two types that take each other are the same: of classes one would be its own
ancestor, and arrays are settled by their elements. -/
theorem compatible_antisymm (hacyclic : hierarchy.Acyclic) {expected actual : Ty}
    (hexpected : expected ≠ .error) (hactual : actual ≠ .error)
    (hcompatible : hierarchy.compatible expected actual = true)
    (hback : hierarchy.compatible actual expected = true) : expected = actual := by
  induction expected generalizing actual with
  | error => exact absurd rfl hexpected
  | void | int | boolean | null => exact eq_of_compatible (by decide) hactual hcompatible
  | named name =>
      rcases (compatible_named_iff hacyclic hactual).mp hcompatible with
        rfl | ⟨_, elem, rfl⟩ | ⟨sub, rfl, hreach⟩
      · cases hback
      · cases hback
      · rcases (compatible_named_iff hacyclic hexpected).mp hback with
          hnull | ⟨_, _, harray⟩ | ⟨other, hother, hupper⟩
        · cases hnull
        · cases harray
        · cases hother
          rw [antisymm_reaches hacyclic hupper hreach]
  | array elem ih =>
      rcases (compatible_array_iff hactual).mp hcompatible with
        rfl | ⟨other, rfl, rfl | ⟨helem, hother, hinner⟩⟩
      · cases hback
      · rfl
      · rcases (compatible_array_iff hexpected).mp hback with
          hnull | ⟨_, harray, hsame | ⟨_, _, houter⟩⟩
        · cases hnull
        · cases harray
          rw [hsame]
        · cases harray
          rw [ih (ne_error_of_isReference helem) (ne_error_of_isReference hother) hinner houter]

/-- What a type takes, everything above it takes too. -/
theorem compatible_trans (hacyclic : hierarchy.Acyclic)
    (hroot : hierarchy.parent? Ty.objectName = none) {upper middle lower : Ty}
    (hupper : upper ≠ .error) (hmiddle : middle ≠ .error) (hlower : lower ≠ .error)
    (habove : hierarchy.compatible upper middle = true)
    (hbelow : hierarchy.compatible middle lower = true) :
    hierarchy.compatible upper lower = true := by
  induction upper generalizing middle lower with
  | error => exact absurd rfl hupper
  | void | int | boolean | null =>
      rwa [eq_of_compatible (by decide) hmiddle habove]
  | named name =>
      rw [compatible_named_iff hacyclic hlower]
      rcases (compatible_named_iff hacyclic hmiddle).mp habove with
        rfl | ⟨rfl, elem, rfl⟩ | ⟨sub, rfl, hreach⟩
      · exact .inl (eq_of_compatible (by decide) hlower hbelow).symm
      · rcases (compatible_array_iff hlower).mp hbelow with rfl | ⟨other, rfl, _⟩
        · exact .inl rfl
        · exact .inr (.inl ⟨rfl, other, rfl⟩)
      · rcases (compatible_named_iff hacyclic hlower).mp hbelow with
          rfl | ⟨rfl, elem, rfl⟩ | ⟨under, rfl, hunder⟩
        · exact .inl rfl
        · -- nothing but the root itself is above the root
          rcases hreach.cases_head with rfl | ⟨parent, hparent, _⟩
          · exact .inr (.inl ⟨rfl, elem, rfl⟩)
          · rw [IsParent, hroot] at hparent
            cases hparent
        · exact .inr (.inr ⟨under, rfl, hunder.trans hreach⟩)
  | array elem ih =>
      rw [compatible_array_iff hlower]
      rcases (compatible_array_iff hmiddle).mp habove with
        rfl | ⟨other, rfl, rfl | ⟨helem, hother, hinner⟩⟩
      · exact .inl (eq_of_compatible (by decide) hlower hbelow).symm
      · exact (compatible_array_iff hlower).mp hbelow
      · rcases (compatible_array_iff hlower).mp hbelow with
          rfl | ⟨last, rfl, rfl | ⟨_, hlast, hinnermost⟩⟩
        · exact .inl rfl
        · exact .inr ⟨other, rfl, .inr ⟨helem, hother, hinner⟩⟩
        · refine .inr ⟨last, rfl, .inr ⟨helem, hlast, ?_⟩⟩
          exact ih (ne_error_of_isReference helem) (ne_error_of_isReference hother)
            (ne_error_of_isReference hlast) hinner hinnermost

/-! ## The types of a program -/

/-- The types but for the one that marks what was already reported. -/
abbrev ProperTy := { ty : Ty // ty ≠ .error }

/-- The types are ordered by what can be used where, and the classes among them by
their parents. -/
structure OrdersTypes (hierarchy : Hierarchy) : Prop where
  order : IsPartialOrder ProperTy fun expected actual =>
    hierarchy.compatible expected.val actual.val = true
  /-- A class takes the classes that it is reached from by links to parents, and a class
  that is not in the tree takes itself. -/
  inheritance : ∀ ancestor sub,
    hierarchy.compatible (.named ancestor) (.named sub) = true ↔
      ReflTransGen hierarchy.IsParent sub ancestor

/-- Whatever is declared, the classes that are built order the types. -/
theorem build_ordersTypes (program : Program) (log : Log) :
    OrdersTypes ((build program.withBuiltins).runOn log).1 := by
  obtain ⟨base, linked, accepting, linking, hall⟩ := exists_assembles program.withBuiltins
  have hbuild : ((build program.withBuiltins).runOn log).1 = linked :=
    congrArg Prod.fst (hall.builds { log := log })
  have hacyclic : linked.Acyclic := hall.progress.acyclic
  have hroot : linked.parent? Ty.objectName = none :=
    hall.progress.untouched _ fun hmem => (mem_linkedNames.mp hmem).2 rfl
  rw [hbuild]
  constructor
  · exact {
      refl := fun ty => linked.compatible_refl ty.val
      trans := fun upper middle lower =>
        compatible_trans hacyclic hroot upper.property middle.property lower.property
      antisymm := fun expected actual hcompatible hback =>
        Subtype.ext (compatible_antisymm hacyclic expected.property actual.property
          hcompatible hback) }
  · intro ancestor sub
    have hproper : Ty.named sub ≠ .error := nofun
    simp [compatible_named_iff hacyclic hproper]

end ClassLang.Hierarchy
