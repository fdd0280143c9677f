/-
# Links to parents

Classes are linked one after the other, and a link that closes a cycle undoes all
links of the cycle. What comes of it does not depend on the order: a class gets
the parent that it asks for unless that parent cannot be used or the class lies on
a cycle, and each of the others hangs under the root with one record. The proof
follows the classes linked so far; at every moment the cycles among them are
exactly those that have been undone.
-/

import Mathlib.Data.List.TakeWhile
import ClassLang.Hierarchy.Build
import ClassLang.Proofs.Diagnostic.Reporting
import ClassLang.Proofs.Hierarchy.Tree

namespace ClassLang.Hierarchy

open Relation CheckM

variable {hierarchy : Hierarchy}

/-! ## What classes ask for -/

/-- A class asks for a parent; the root asks for none. -/
def Wants (hierarchy : Hierarchy) (child parent : String) : Prop :=
  child ≠ Ty.objectName ∧
    ∃ info, hierarchy.get? child = some info ∧ info.wantedParent = parent

/-- A class that others can extend. -/
def Extendable (hierarchy : Hierarchy) (name : String) : Prop :=
  ∃ info, hierarchy.get? name = some info ∧ info.extendable = true

/-- A class that is among `linked` asks for a parent that can be used. -/
def Links (hierarchy : Hierarchy) (linked : List String) (child parent : String) : Prop :=
  child ∈ linked ∧ hierarchy.Wants child parent ∧ hierarchy.Extendable parent

/-- A class has to do without the parent that it asks for: that parent cannot be
used, or the links among `linked` lead back to the class. -/
def Defaulted (hierarchy : Hierarchy) (linked : List String) (name : String) : Prop :=
  (∃ parent, hierarchy.Wants name parent ∧ ¬ hierarchy.Extendable parent) ∨
    TransGen (hierarchy.Links linked) name name

theorem wants_unique {child parent other : String} (hparent : hierarchy.Wants child parent)
    (hother : hierarchy.Wants child other) : parent = other := by
  obtain ⟨_, info, hget, rfl⟩ := hparent
  obtain ⟨_, info', hget', rfl⟩ := hother
  obtain rfl := Option.some.inj (hget.symm.trans hget')
  rfl

theorem Wants.mem_names {child parent : String} (hwants : hierarchy.Wants child parent) :
    child ∈ hierarchy.names := by
  obtain ⟨_, info, hget, _⟩ := hwants
  exact mem_names_of_get? hget

theorem links_rightUnique {linked : List String} :
    Relator.RightUnique (hierarchy.Links linked) :=
  fun _ _ _ hparent hother => wants_unique hparent.2.1 hother.2.1

theorem Links.mono {linked more : List String} (hsub : linked ⊆ more) {child parent : String}
    (hlink : hierarchy.Links linked child parent) : hierarchy.Links more child parent :=
  ⟨hsub hlink.1, hlink.2⟩

theorem Defaulted.mono {linked more : List String} (hsub : linked ⊆ more) {name : String}
    (hdefaulted : hierarchy.Defaulted linked name) : hierarchy.Defaulted more name :=
  hdefaulted.imp_right fun hcycle => hcycle.lift id fun _ _ hlink => hlink.mono hsub

/-- A path stays when one more class is linked. -/
theorem reaches_cons {linked : List String} {child top : String} (name : String)
    (hpath : ReflTransGen (hierarchy.Links linked) child top) :
    ReflTransGen (hierarchy.Links (name :: linked)) child top :=
  hpath.lift id fun _ _ hlink => hlink.mono (List.subset_cons_self name linked)

theorem mem_of_transGen_links {linked : List String} {child parent : String}
    (hpath : TransGen (hierarchy.Links linked) child parent) : child ∈ linked := by
  obtain ⟨next, hlink, _⟩ := TransGen.head'_iff.mp hpath
  exact hlink.1

/-! ## Changing a parent -/

/-- What is wrong with the parent that a class asks for, when it has to do without
it: there is no such class, it is closed, or it can be used and there is a cycle. -/
def linkFault (open? : Option Bool) (name parent : String) : Fault :=
  match open? with
  | none => .unknownParent name parent
  | some true => .cycle name parent
  | some false => .closedParent name parent

/-- The record of a class that has to do without the parent that it asks for. -/
def linkRecord? (hierarchy : Hierarchy) (name : String) : Option Diagnostic :=
  (hierarchy.get? name).map fun info =>
    (linkFault ((hierarchy.get? info.wantedParent).map ClassInfo.extendable) name
      info.wantedParent).at info.file info.line

/-- Two hierarchies with the same classes that differ in parents at most. -/
def SameClasses (hierarchy other : Hierarchy) : Prop :=
  other.names = hierarchy.names ∧ ∀ name,
    (other.get? name).map (fun info => { info with parent := none }) =
      (hierarchy.get? name).map fun info => { info with parent := none }

theorem get?_setParent (name parent other : String) :
    (hierarchy.setParent name parent).get? other = (hierarchy.get? other).map fun info =>
      if other = name then { info with parent := some parent } else info := by
  rw [setParent, get?_modify]
  exact fun _ => rfl

theorem sameClasses_setParent (name parent : String) :
    SameClasses hierarchy (hierarchy.setParent name parent) := by
  refine ⟨names_modify fun _ => rfl, fun other => ?_⟩
  rw [get?_setParent, Option.map_map]
  congr 1
  funext info
  simp only [Function.comp]
  split <;> rfl

theorem parent?_setParent {name : String} (hname : name ∈ hierarchy.names)
    (parent other : String) :
    (hierarchy.setParent name parent).parent? other =
      if other = name then some parent else hierarchy.parent? other := by
  rw [parent?, get?_setParent]
  by_cases hother : other = name
  · obtain ⟨info, hget⟩ := exists_get?_of_mem_names hname
    simp [hother, hget]
  · simp [hother, parent?]

namespace SameClasses

variable {other : Hierarchy}

theorem trans {third : Hierarchy} (hsame : SameClasses hierarchy other)
    (hthird : SameClasses other third) : SameClasses hierarchy third :=
  ⟨hthird.1.trans hsame.1, fun name => (hthird.2 name).trans (hsame.2 name)⟩

/-- What is read off a class without its parent is the same in both. -/
theorem map_get? {α : Type} (hsame : SameClasses hierarchy other) (name : String)
    (view : ClassInfo → α) (hview : ∀ info, view { info with parent := none } = view info) :
    (other.get? name).map view = (hierarchy.get? name).map view := by
  have hmap := congrArg (Option.map view) (hsame.2 name)
  simpa only [Option.map_map, Function.comp_def, hview] using hmap

theorem wants (hsame : SameClasses hierarchy other) : other.Wants = hierarchy.Wants := by
  funext child parent
  have hmap := hsame.map_get? child ClassInfo.wantedParent fun _ => rfl
  simp only [Wants, ← Option.map_eq_some_iff, hmap]

theorem extendable (hsame : SameClasses hierarchy other) :
    other.Extendable = hierarchy.Extendable := by
  funext name
  have hmap := hsame.map_get? name ClassInfo.extendable fun _ => rfl
  simp only [Extendable, ← Option.map_eq_some_iff, hmap]

theorem links (hsame : SameClasses hierarchy other) : other.Links = hierarchy.Links := by
  funext linked child parent
  rw [Links, Links, hsame.wants, hsame.extendable]

theorem defaulted (hsame : SameClasses hierarchy other) :
    other.Defaulted = hierarchy.Defaulted := by
  funext linked name
  rw [Defaulted, Defaulted, hsame.wants, hsame.extendable, hsame.links]

theorem linkRecord? (hsame : SameClasses hierarchy other) :
    other.linkRecord? = hierarchy.linkRecord? := by
  funext name
  simp only [Hierarchy.linkRecord?, hsame.map_get? _ ClassInfo.extendable fun _ => rfl]
  exact hsame.map_get? name _ fun _ => rfl

end SameClasses

/-- Hang classes under the root. -/
def detachAll (hierarchy : Hierarchy) (members : List String) : Hierarchy :=
  members.foldl (fun hierarchy name => hierarchy.setParent name Ty.objectName) hierarchy

theorem sameClasses_detachAll (members : List String) :
    SameClasses hierarchy (hierarchy.detachAll members) := by
  induction members generalizing hierarchy with
  | nil => exact ⟨rfl, fun _ => rfl⟩
  | cons member members ih => exact (sameClasses_setParent member Ty.objectName).trans ih

theorem parent?_detachAll {members : List String}
    (hmembers : ∀ member ∈ members, member ∈ hierarchy.names) (other : String) :
    (hierarchy.detachAll members).parent? other =
      if other ∈ members then some Ty.objectName else hierarchy.parent? other := by
  induction members generalizing hierarchy with
  | nil => simp [detachAll]
  | cons member members ih =>
      rw [List.forall_mem_cons] at hmembers
      have hnames := (@sameClasses_setParent hierarchy member Ty.objectName).1
      have hrest := @ih (hierarchy.setParent member Ty.objectName)
        (by simpa [hnames] using hmembers.2)
      rw [parent?_setParent hmembers.1] at hrest
      rw [detachAll, List.foldl_cons, ← detachAll, hrest]
      by_cases hother : other ∈ members
      · simp [hother]
      · by_cases hself : other = member <;> simp [hother, hself]

/-! ## Cycles among the linked classes -/

section Cycles

variable {linked : List String} {name parent : String}

/-- A path that needs the links of one more class leads through that class. -/
theorem transGen_links_cons {child top : String}
    (hpath : TransGen (hierarchy.Links (name :: linked)) child top) :
    TransGen (hierarchy.Links linked) child top ∨
      ReflTransGen (hierarchy.Links (name :: linked)) child name ∧
        TransGen (hierarchy.Links (name :: linked)) name top := by
  have hold : ∀ {lower upper : String}, hierarchy.Links (name :: linked) lower upper →
      lower ≠ name → hierarchy.Links linked lower upper := by
    intro lower upper hlink hne
    exact ⟨(List.mem_cons.mp hlink.1).resolve_left hne, hlink.2⟩
  induction hpath using TransGen.head_induction_on with
  | @single child hlink =>
      by_cases hchild : child = name
      · subst hchild
        exact .inr ⟨.refl, .single hlink⟩
      · exact .inl (.single (hold hlink hchild))
  | @head child next hlink hrest ih =>
      by_cases hchild : child = name
      · subst hchild
        exact .inr ⟨.refl, .head hlink hrest⟩
      · rcases ih with hpath | ⟨hto, hfrom⟩
        · exact .inl (.head (hold hlink hchild) hpath)
        · exact .inr ⟨.head hlink hto, hfrom⟩

/-- A cycle cannot be left. -/
theorem transGen_self_of_reaches {more : List String} (hsub : linked ⊆ more)
    (hcycle : TransGen (hierarchy.Links linked) name name)
    (hreach : ReflTransGen (hierarchy.Links more) name parent) :
    TransGen (hierarchy.Links linked) parent parent := by
  induction hreach with
  | refl => exact hcycle
  | @tail lower upper _ hlink ih =>
      obtain ⟨next, hnext, hrest⟩ := TransGen.head'_iff.mp ih
      obtain rfl := links_rightUnique hlink (hnext.mono hsub)
      exact .tail' hrest hnext

/-- What reaches a class that is not linked is on no cycle. -/
theorem not_transGen_self {more : List String} (hsub : linked ⊆ more) (hname : name ∉ linked)
    {child : String} (hreach : ReflTransGen (hierarchy.Links more) child name) :
    ¬ TransGen (hierarchy.Links linked) child child :=
  fun hcycle => hname (mem_of_transGen_links (transGen_self_of_reaches hsub hcycle hreach))

end Cycles

/-! ## The classes linked so far -/

/-- The state of linking: classes not yet linked have no parent, and the others
have the one that they ask for unless they have to do without it. -/
structure Progress (hierarchy : Hierarchy) (linked : List String) : Prop where
  subset : linked ⊆ hierarchy.names
  root : Ty.objectName ∉ linked
  untouched : ∀ name, name ∉ linked → hierarchy.parent? name = none
  defaulted : ∀ name ∈ linked, hierarchy.Defaulted linked name →
    hierarchy.IsParent name Ty.objectName
  kept : ∀ name ∈ linked, ¬ hierarchy.Defaulted linked name →
    ∀ parent, hierarchy.Wants name parent → hierarchy.IsParent name parent

namespace Progress

variable {linked : List String}

theorem mem_of_isParent (hprogress : Progress hierarchy linked) {child parent : String}
    (hparent : hierarchy.IsParent child parent) : child ∈ linked := by
  by_contra hchild
  rw [IsParent, hprogress.untouched child hchild] at hparent
  cases hparent

theorem exists_wants (hprogress : Progress hierarchy linked) {name : String}
    (hname : name ∈ linked) : ∃ parent, hierarchy.Wants name parent := by
  obtain ⟨info, hget⟩ := exists_get?_of_mem_names (hprogress.subset hname)
  refine ⟨info.wantedParent, ?_, info, hget, rfl⟩
  rintro rfl
  exact hprogress.root hname

/-- The root has no parent, so it is on no path that ends elsewhere. -/
theorem ne_root_of_reaches (hprogress : Progress hierarchy linked) {child top : String}
    (hreach : ReflTransGen hierarchy.IsParent child top) (hroot : top ≠ Ty.objectName) :
    child ≠ Ty.objectName := by
  rintro rfl
  rcases hreach.cases_head with heq | ⟨above, habove, _⟩
  · exact hroot heq.symm
  · exact hprogress.root (hprogress.mem_of_isParent habove)

/-- A parent other than the root is one that was asked for. -/
theorem links_of_isParent (hprogress : Progress hierarchy linked) {child parent : String}
    (hparent : hierarchy.IsParent child parent) (hroot : parent ≠ Ty.objectName) :
    hierarchy.Links linked child parent ∧ ¬ hierarchy.Defaulted linked child := by
  have hchild := hprogress.mem_of_isParent hparent
  by_cases hdefaulted : hierarchy.Defaulted linked child
  · have hobject := hprogress.defaulted child hchild hdefaulted
    exact absurd (isParent_rightUnique hparent hobject) hroot
  · obtain ⟨wanted, hwants⟩ := hprogress.exists_wants hchild
    have hwanted := hprogress.kept child hchild hdefaulted wanted hwants
    obtain rfl := isParent_rightUnique hparent hwanted
    refine ⟨⟨hchild, hwants, ?_⟩, hdefaulted⟩
    by_contra hclosed
    exact hdefaulted (.inl ⟨parent, hwants, hclosed⟩)

/-- A path of parents that does not end at the root is a path of links. -/
theorem links_of_reaches (hprogress : Progress hierarchy linked) {child top : String}
    (hreach : ReflTransGen hierarchy.IsParent child top) (hroot : top ≠ Ty.objectName) :
    ReflTransGen (hierarchy.Links linked) child top := by
  induction hreach using ReflTransGen.head_induction_on with
  | refl => exact .refl
  | @head child next hparent hrest ih =>
      have hnext : next ≠ Ty.objectName := hprogress.ne_root_of_reaches hrest hroot
      exact .head (hprogress.links_of_isParent hparent hnext).1 ih

/-- The cycles that there are have been undone. -/
theorem acyclic (hprogress : Progress hierarchy linked) : hierarchy.Acyclic := by
  intro name hcycle
  obtain ⟨next, hparent, hrest⟩ := TransGen.head'_iff.mp hcycle
  have hname : name ∈ linked := hprogress.mem_of_isParent hparent
  have hroot : name ≠ Ty.objectName := by
    rintro rfl
    exact hprogress.root hname
  have hnext : next ≠ Ty.objectName := hprogress.ne_root_of_reaches hrest hroot
  obtain ⟨hlink, hkept⟩ := hprogress.links_of_isParent hparent hnext
  exact hkept (.inr (.head' hlink (hprogress.links_of_reaches hrest hroot)))

section Next

variable {name parent : String} (hprogress : Progress hierarchy linked)
  (hfresh : name ∉ linked) (hwants : hierarchy.Wants name parent)

include hprogress hfresh

/-- On the way back to a class that is about to be linked, all links are in place. -/
theorem isParent_of_links {child upper : String} (hchild : child ≠ name)
    (hlink : hierarchy.Links (name :: linked) child upper)
    (hback : ReflTransGen (hierarchy.Links (name :: linked)) child name) :
    hierarchy.IsParent child upper := by
  have hmem : child ∈ linked := (List.mem_cons.mp hlink.1).resolve_left hchild
  refine hprogress.kept child hmem ?_ upper hlink.2.1
  rintro (⟨wanted, hwanted, hclosed⟩ | hcycle)
  · obtain rfl := wants_unique hlink.2.1 hwanted
    exact hclosed hlink.2.2
  · exact not_transGen_self (List.subset_cons_self name linked) hfresh hback hcycle

theorem reaches_name_of_links {child : String}
    (hback : ReflTransGen (hierarchy.Links (name :: linked)) child name) :
    ReflTransGen hierarchy.IsParent child name := by
  induction hback using ReflTransGen.head_induction_on with
  | refl => exact .refl
  | @head child next hlink hrest ih =>
      by_cases hchild : child = name
      · rw [hchild]
      · exact .head (hprogress.isParent_of_links hfresh hchild hlink (.head hlink hrest)) ih

include hwants

/-- Walking up from the parent that a class asks for finds the class exactly when
its link would close a cycle. -/
theorem reaches_iff_transGen (hopen : hierarchy.Extendable parent) :
    ReflTransGen hierarchy.IsParent parent name ↔
      TransGen (hierarchy.Links (name :: linked)) name name := by
  have hlink : hierarchy.Links (name :: linked) name parent :=
    ⟨List.mem_cons_self, hwants, hopen⟩
  constructor
  · intro hreach
    exact .head' hlink (reaches_cons name (hprogress.links_of_reaches hreach hwants.1))
  · intro hcycle
    obtain ⟨next, hnext, hback⟩ := TransGen.head'_iff.mp hcycle
    obtain rfl := links_rightUnique hlink hnext
    exact hprogress.reaches_name_of_links hfresh hback

/-- When the link would close a cycle, following links from the parent goes round it. -/
theorem reaches_of_links (hreach : ReflTransGen hierarchy.IsParent parent name)
    {member : String} (hpath : ReflTransGen (hierarchy.Links (name :: linked)) parent member) :
    ReflTransGen hierarchy.IsParent parent member ∧
      ReflTransGen (hierarchy.Links (name :: linked)) member name := by
  have hback : ReflTransGen (hierarchy.Links (name :: linked)) parent name :=
    reaches_cons name (hprogress.links_of_reaches hreach hwants.1)
  induction hpath with
  | refl => exact ⟨.refl, hback⟩
  | @tail lower upper _ hlink ih =>
      by_cases hlower : lower = name
      · subst hlower
        obtain rfl := wants_unique hwants hlink.2.1
        exact ⟨.refl, hback⟩
      · refine ⟨.tail ih.1 (hprogress.isParent_of_links hfresh hlower hlink ih.2), ?_⟩
        rcases ih.2.cases_head with heq | ⟨next, hnext, hrest⟩
        · exact absurd heq hlower
        · obtain rfl := links_rightUnique hlink hnext
          exact hrest

/-- The classes that the link would put on a cycle are those between the parent that
it asks for and the class itself. -/
theorem mem_cycle_iff (hopen : hierarchy.Extendable parent)
    (hreach : ReflTransGen hierarchy.IsParent parent name) {member : String} :
    ReflTransGen hierarchy.IsParent parent member ↔
      TransGen (hierarchy.Links (name :: linked)) member member ∧
        ¬ TransGen (hierarchy.Links linked) member member := by
  have hlink : hierarchy.Links (name :: linked) name parent :=
    ⟨List.mem_cons_self, hwants, hopen⟩
  constructor
  · intro hmember
    -- the class itself has no parent yet, so it is the last on the way up
    have hup : ReflTransGen hierarchy.IsParent member name := by
      rcases ReflTransGen.total_of_right_unique isParent_rightUnique hmember hreach with h | h
      · exact h
      · rcases h.cases_head with rfl | ⟨next, hnext, _⟩
        · exact .refl
        · exact absurd (hprogress.mem_of_isParent hnext) hfresh
    have hroot : member ≠ Ty.objectName := hprogress.ne_root_of_reaches hup hwants.1
    have hto := reaches_cons name (hprogress.links_of_reaches hup hwants.1)
    have hfrom := reaches_cons name (hprogress.links_of_reaches hmember hroot)
    refine ⟨TransGen.trans_right hto (.head' hlink hfrom), ?_⟩
    exact not_transGen_self (List.subset_cons_self name linked) hfresh hto
  · rintro ⟨hcycle, hnew⟩
    rcases transGen_links_cons hcycle with hold | ⟨_, hfrom⟩
    · exact absurd hold hnew
    · obtain ⟨next, hnext, hpath⟩ := TransGen.head'_iff.mp hfrom
      obtain rfl := links_rightUnique hlink hnext
      exact (hprogress.reaches_of_links hfresh hwants hreach hpath).1

end Next

/-! ## One more link -/

section Step

variable {name parent : String} (hprogress : Progress hierarchy linked)
  (hwants : hierarchy.Wants name parent)

/-- A link that closes no cycle changes nothing for the other classes. -/
theorem defaulted_cons_iff (hcycle : ¬ TransGen (hierarchy.Links (name :: linked)) name name)
    {other : String} :
    hierarchy.Defaulted (name :: linked) other ↔ hierarchy.Defaulted linked other := by
  refine ⟨Or.imp_right fun hother => ?_, .mono (List.subset_cons_self name linked)⟩
  rcases transGen_links_cons hother with hold | ⟨hto, hfrom⟩
  · exact hold
  · exact absurd (TransGen.trans_left hfrom hto) hcycle

include hwants

/-- Without a cycle, a class has to do without a parent exactly when that is closed. -/
theorem defaulted_self_iff (hcycle : ¬ TransGen (hierarchy.Links (name :: linked)) name name) :
    hierarchy.Defaulted (name :: linked) name ↔ ¬ hierarchy.Extendable parent := by
  constructor
  · rintro (⟨wanted, hwanted, hclosed⟩ | hself)
    · rwa [wants_unique hwants hwanted]
    · exact absurd hself hcycle
  · exact fun hclosed => .inl ⟨parent, hwants, hclosed⟩

theorem not_transGen_of_closed (hclosed : ¬ hierarchy.Extendable parent) :
    ¬ TransGen (hierarchy.Links (name :: linked)) name name := by
  intro hcycle
  obtain ⟨next, hlink, _⟩ := TransGen.head'_iff.mp hcycle
  obtain rfl := wants_unique hwants hlink.2.1
  exact hclosed hlink.2.2

include hprogress

/-- Giving a class the parent that is right for it goes on with the linking, as long
as no cycle is closed. -/
theorem setParent (hcycle : ¬ TransGen (hierarchy.Links (name :: linked)) name name)
    {found : String}
    (hfound : hierarchy.Extendable parent ∧ found = parent ∨
      ¬ hierarchy.Extendable parent ∧ found = Ty.objectName) :
    Progress (hierarchy.setParent name found) (name :: linked) := by
  have hname : name ∈ hierarchy.names := hwants.mem_names
  have hsame := @sameClasses_setParent hierarchy name found
  have hparent (other : String) := parent?_setParent hname found other
  have hself := defaulted_self_iff hwants hcycle
  constructor
  · rw [hsame.1]
    exact List.cons_subset.mpr ⟨hname, hprogress.subset⟩
  · rw [List.mem_cons, not_or]
    exact ⟨fun h => hwants.1 h.symm, hprogress.root⟩
  · intro other hother
    rw [List.mem_cons, not_or] at hother
    rw [hparent, if_neg hother.1]
    exact hprogress.untouched other hother.2
  · intro other hother hdefaulted
    rw [hsame.defaulted] at hdefaulted
    rw [IsParent, hparent]
    split
    next heq =>
      subst heq
      rcases hfound with ⟨hopen, _⟩ | ⟨_, rfl⟩
      · exact absurd hopen (hself.mp hdefaulted)
      · rfl
    next hne =>
      have hmem := (List.mem_cons.mp hother).resolve_left hne
      exact hprogress.defaulted other hmem ((defaulted_cons_iff hcycle).mp hdefaulted)
  · intro other hother hkept wanted hwanted
    rw [hsame.defaulted] at hkept
    rw [hsame.wants] at hwanted
    rw [IsParent, hparent]
    split
    next heq =>
      subst heq
      obtain rfl := wants_unique hwants hwanted
      rcases hfound with ⟨_, rfl⟩ | ⟨hclosed, _⟩
      · rfl
      · exact absurd (hself.mpr hclosed) hkept
    next hne =>
      have hmem := (List.mem_cons.mp hother).resolve_left hne
      rw [defaulted_cons_iff hcycle] at hkept
      exact hprogress.kept other hmem hkept wanted hwanted

/-- Undoing all links of the cycle that a class closes goes on with the linking. -/
theorem detachAll (hfresh : name ∉ linked) (hopen : hierarchy.Extendable parent)
    (hreach : ReflTransGen hierarchy.IsParent parent name) {members : List String}
    (hmembers : ∀ member, member ∈ members ↔ ReflTransGen hierarchy.IsParent parent member) :
    Progress (hierarchy.detachAll members) (name :: linked) := by
  have hcycle {member : String} : member ∈ members ↔
      TransGen (hierarchy.Links (name :: linked)) member member ∧
        ¬ TransGen (hierarchy.Links linked) member member := by
    rw [hmembers, hprogress.mem_cycle_iff hfresh hwants hopen hreach]
  have hmem {member : String} (hmember : member ∈ members) : member ∈ name :: linked :=
    mem_of_transGen_links (hcycle.mp hmember).1
  have hsubset : name :: linked ⊆ hierarchy.names :=
    List.cons_subset.mpr ⟨hwants.mem_names, hprogress.subset⟩
  have hsame := @sameClasses_detachAll hierarchy members
  have hparent (other : String) :=
    parent?_detachAll (fun member hmember => hsubset (hmem hmember)) other
  have hself : name ∈ members := (hmembers name).mpr hreach
  constructor
  · rw [hsame.1]
    exact hsubset
  · rw [List.mem_cons, not_or]
    exact ⟨fun h => hwants.1 h.symm, hprogress.root⟩
  · intro other hother
    rw [hparent, if_neg fun hmember => hother (hmem hmember)]
    rw [List.mem_cons, not_or] at hother
    exact hprogress.untouched other hother.2
  · intro other hother hdefaulted
    rw [hsame.defaulted] at hdefaulted
    rw [IsParent, hparent]
    split
    next => rfl
    next hnot =>
      have hold : other ∈ linked := by
        refine (List.mem_cons.mp hother).resolve_left ?_
        rintro rfl
        exact hnot hself
      refine hprogress.defaulted other hold ?_
      rcases hdefaulted with hclosed | hround
      · exact .inl hclosed
      · by_contra hkept
        exact hnot (hcycle.mpr ⟨hround, fun h => hkept (.inr h)⟩)
  · intro other hother hkept wanted hwanted
    rw [hsame.defaulted] at hkept
    rw [hsame.wants] at hwanted
    have hnot : other ∉ members := fun hmember => hkept (.inr (hcycle.mp hmember).1)
    rw [IsParent, hparent, if_neg hnot]
    have hold : other ∈ linked := by
      refine (List.mem_cons.mp hother).resolve_left ?_
      rintro rfl
      exact hnot hself
    refine hprogress.kept other hold (fun hdefaulted => hkept ?_) wanted hwanted
    exact hdefaulted.mono (List.subset_cons_self name linked)

end Step

end Progress

/-! ## What linking reports -/

theorem linkRecord?_of_get? {name : String} {info : ClassInfo}
    (hget : hierarchy.get? name = some info) :
    hierarchy.linkRecord? name =
      some ((linkFault ((hierarchy.get? info.wantedParent).map ClassInfo.extendable) name
        info.wantedParent).at info.file info.line) := by
  rw [linkRecord?, hget, Option.map_some]

theorem map_extendable_of_wants {name parent : String} {info : ClassInfo}
    (hget : hierarchy.get? name = some info) (hwants : hierarchy.Wants name parent)
    (hopen : hierarchy.Extendable parent) :
    (hierarchy.get? info.wantedParent).map ClassInfo.extendable = some true := by
  obtain ⟨_, found, hfound, rfl⟩ := hwants
  obtain rfl := Option.some.inj (hget.symm.trans hfound)
  exact Option.map_eq_some_iff.mpr hopen

/-- Undoing the links of a cycle makes one record for each of its classes. -/
theorem reports_foldlM_detach {members : List String}
    (hmembers : ∀ member ∈ members,
      ∃ parent, hierarchy.Wants member parent ∧ hierarchy.Extendable parent) :
    ∃ records, Reports (members.foldlM detach hierarchy) (hierarchy.detachAll members) records ∧
      records.map some = members.map hierarchy.linkRecord? := by
  induction members generalizing hierarchy with
  | nil => exact ⟨[], .pure hierarchy, rfl⟩
  | cons member members ih =>
      rw [List.forall_mem_cons] at hmembers
      obtain ⟨⟨parent, hwants, hopen⟩, hrest⟩ := hmembers
      have hsame := @sameClasses_setParent hierarchy member Ty.objectName
      obtain ⟨records, hreports, hrecords⟩ := @ih (hierarchy.setParent member Ty.objectName)
        (by rwa [hsame.wants, hsame.extendable])
      obtain ⟨_, info, hget, _⟩ := id hwants
      have hrecord := linkRecord?_of_get? hget
      rw [map_extendable_of_wants hget hwants hopen] at hrecord
      have hdetach : Reports (detach hierarchy member) (hierarchy.setParent member Ty.objectName)
          [(Fault.cycle member info.wantedParent).at info.file info.line] := by
        simp only [detach, hget]
        exact .bind (.report _) (.pure _)
      refine ⟨_, by rw [List.foldlM_cons]; exact .bind hdetach hreports, ?_⟩
      rw [List.map_append, hrecords, hsame.linkRecord?]
      show _ = hierarchy.linkRecord? member :: members.map hierarchy.linkRecord?
      rw [hrecord]
      rfl

/-- A class without parent is the last of every chain that it is in. -/
theorem mem_takeWhile_chain {name member : String} (htop : hierarchy.parent? name = none)
    {steps : Nat} {start : Option String} (hmember : member ∈ hierarchy.chain steps start)
    (hne : member ≠ name) : member ∈ (hierarchy.chain steps start).takeWhile (· != name) := by
  induction steps generalizing start with
  | zero => cases start <;> cases hmember
  | succ steps ih =>
      cases start with
      | none => cases hmember
      | some first =>
          rw [chain, List.mem_cons] at hmember
          rw [chain]
          by_cases hfirst : first = name
          · subst hfirst
            rcases hmember with rfl | hrest
            · exact absurd rfl hne
            · rw [htop] at hrest
              cases steps <;> cases hrest
          · rw [List.takeWhile_cons_of_pos (by simpa using hfirst), List.mem_cons]
            exact hmember.imp_right ih

/-- Up to a class without parent, a chain has all the classes that it reaches. -/
theorem mem_cons_takeWhile_chain_iff (hacyclic : hierarchy.Acyclic) {name start member : String}
    (htop : hierarchy.parent? name = none)
    (hreach : ReflTransGen hierarchy.IsParent start name) :
    member ∈ name :: (hierarchy.chain (hierarchy.size + 1) (some start)).takeWhile (· != name) ↔
      ReflTransGen hierarchy.IsParent start member := by
  rw [← mem_chain_iff hacyclic, List.mem_cons]
  constructor
  · rintro (rfl | hmember)
    · exact (mem_chain_iff hacyclic).mpr hreach
    · exact List.takeWhile_subset _ hmember
  · intro hmember
    by_cases hne : member = name
    · exact .inl hne
    · exact .inr (mem_takeWhile_chain htop hmember hne)

/-- The classes that have to do without a parent once `name` is linked as well, and
did not before. -/
def NewlyDefaulted (hierarchy : Hierarchy) (linked : List String) (name other : String) : Prop :=
  (other ∈ name :: linked ∧ hierarchy.Defaulted (name :: linked) other) ∧
    ¬ (other ∈ linked ∧ hierarchy.Defaulted linked other)

/-- What one link does: it goes on with the linking, and reports each class that now
has to do without a parent. -/
structure LinkStep (hierarchy : Hierarchy) (linked : List String) (name : String)
    (next : Hierarchy) (records : List Diagnostic) : Prop where
  reports : Reports (hierarchy.link name) next records
  same : SameClasses hierarchy next
  progress : Progress next (name :: linked)
  defaulted : ∃ newly : List String, newly.Nodup ∧
    (∀ other, other ∈ newly ↔ hierarchy.NewlyDefaulted linked name other) ∧
    records.map some = newly.map hierarchy.linkRecord?

section LinkStep

variable {linked : List String} {name : String} {info : ClassInfo}
  (hprogress : Progress hierarchy linked) (hfresh : name ∉ linked)
  (hget : hierarchy.get? name = some info)

include hprogress hfresh hget

theorem linkStep_of_closed (hroot : name ≠ Ty.objectName)
    (hclosed : ¬ hierarchy.Extendable info.wantedParent) :
    ∃ record, LinkStep hierarchy linked name (hierarchy.setParent name Ty.objectName)
      [record] := by
  have hwants : hierarchy.Wants name info.wantedParent := ⟨hroot, info, hget, rfl⟩
  have hcycle : ¬ TransGen (hierarchy.Links (name :: linked)) name name :=
    Progress.not_transGen_of_closed hwants hclosed
  have hself := (Progress.defaulted_self_iff hwants hcycle).mpr hclosed
  have hrecord := linkRecord?_of_get? hget
  obtain ⟨record, hreports, hsome⟩ : ∃ record,
      Reports (hierarchy.link name) (hierarchy.setParent name Ty.objectName) [record] ∧
        hierarchy.linkRecord? name = some record := by
    simp only [link, hget]
    cases hparent : hierarchy.get? info.wantedParent with
    | none =>
        rw [hparent] at hrecord
        exact ⟨_, .bind (.report _) (.pure _), hrecord⟩
    | some parent =>
        have hextendable : parent.extendable = false := by
          by_contra hopen
          exact hclosed ⟨parent, hparent, Bool.not_eq_false _ ▸ hopen⟩
        rw [hparent, Option.map_some, hextendable] at hrecord
        simp only [hextendable]
        exact ⟨_, .bind (.report _) (.pure _), hrecord⟩
  refine ⟨record, hreports, sameClasses_setParent _ _,
    hprogress.setParent hwants hcycle (.inr ⟨hclosed, rfl⟩), [name], List.nodup_singleton _, ?_, ?_⟩
  · intro other
    rw [NewlyDefaulted, Progress.defaulted_cons_iff hcycle, List.mem_singleton]
    constructor
    · rintro rfl
      exact ⟨⟨List.mem_cons_self, (Progress.defaulted_cons_iff hcycle).mp hself⟩,
        fun h => hfresh h.1⟩
    · rintro ⟨⟨hmem, hdefaulted⟩, hnew⟩
      exact (List.mem_cons.mp hmem).resolve_right fun h => hnew ⟨h, hdefaulted⟩
  · simp [hsome]

/-- The classes of a cycle are new among those that have to do without a parent. -/
theorem newlyDefaulted_iff (hroot : name ≠ Ty.objectName)
    (hopen : hierarchy.Extendable info.wantedParent)
    (hreach : ReflTransGen hierarchy.IsParent info.wantedParent name) {other : String} :
    hierarchy.NewlyDefaulted linked name other ↔
      ReflTransGen hierarchy.IsParent info.wantedParent other := by
  have hwants : hierarchy.Wants name info.wantedParent := ⟨hroot, info, hget, rfl⟩
  rw [hprogress.mem_cycle_iff hfresh hwants hopen hreach]
  constructor
  · rintro ⟨⟨hmem, hclosed | hcycle⟩, hnew⟩
    · rcases List.mem_cons.mp hmem with rfl | hold
      · obtain ⟨wanted, hwanted, hclosed⟩ := hclosed
        obtain rfl := wants_unique hwants hwanted
        exact absurd hopen hclosed
      · exact absurd ⟨hold, .inl hclosed⟩ hnew
    · exact ⟨hcycle, fun hold => hnew ⟨mem_of_transGen_links hold, .inr hold⟩⟩
  · rintro ⟨hcycle, hnew⟩
    refine ⟨⟨mem_of_transGen_links hcycle, .inr hcycle⟩, ?_⟩
    rintro ⟨_, ⟨wanted, hwanted, hclosed⟩ | hold⟩
    · obtain ⟨next, hlink, _⟩ := TransGen.head'_iff.mp hcycle
      obtain rfl := wants_unique hlink.2.1 hwanted
      exact hclosed hlink.2.2
    · exact hnew hold

theorem linkStep_of_acyclic (hroot : name ≠ Ty.objectName)
    (hopen : hierarchy.Extendable info.wantedParent)
    (hreach : ¬ ReflTransGen hierarchy.IsParent info.wantedParent name) :
    LinkStep hierarchy linked name (hierarchy.setParent name info.wantedParent) [] := by
  have hwants : hierarchy.Wants name info.wantedParent := ⟨hroot, info, hget, rfl⟩
  have hcycle : ¬ TransGen (hierarchy.Links (name :: linked)) name name := by
    rwa [← hprogress.reaches_iff_transGen hfresh hwants hopen]
  refine ⟨?_, sameClasses_setParent name info.wantedParent,
    hprogress.setParent hwants hcycle (.inl ⟨hopen, rfl⟩), [], List.nodup_nil, ?_, rfl⟩
  · obtain ⟨parentInfo, hparent, hextendable⟩ := hopen
    have hthrough : hierarchy.cycleThrough? info.wantedParent name = none :=
      if_neg fun hmem => hreach ((mem_chain_iff hprogress.acyclic).mp hmem)
    simp only [link, hget, hparent, hextendable, hthrough, if_true]
    exact .pure _
  · intro other
    refine ⟨fun hmem => (by cases hmem), fun hnew => ?_⟩
    rw [NewlyDefaulted, Progress.defaulted_cons_iff hcycle] at hnew
    rcases List.mem_cons.mp hnew.1.1 with rfl | hold
    · rw [← Progress.defaulted_cons_iff hcycle,
        Progress.defaulted_self_iff hwants hcycle] at hnew
      exact absurd hopen hnew.1.2
    · exact absurd ⟨hold, hnew.1.2⟩ hnew.2

theorem linkStep_of_cycle (hroot : name ≠ Ty.objectName)
    (hopen : hierarchy.Extendable info.wantedParent)
    (hreach : ReflTransGen hierarchy.IsParent info.wantedParent name) :
    ∃ next records, LinkStep hierarchy linked name next records := by
  have hwants : hierarchy.Wants name info.wantedParent := ⟨hroot, info, hget, rfl⟩
  have htop : hierarchy.parent? name = none := hprogress.untouched name hfresh
  let members := name ::
    (hierarchy.chain (hierarchy.size + 1) (some info.wantedParent)).takeWhile (· != name)
  have hmembers (member : String) : member ∈ members ↔
      ReflTransGen hierarchy.IsParent info.wantedParent member :=
    mem_cons_takeWhile_chain_iff hprogress.acyclic htop hreach
  obtain ⟨records, hreports, hrecords⟩ := @reports_foldlM_detach hierarchy members (by
    intro member hmember
    obtain ⟨hcycle, _⟩ :=
      (hprogress.mem_cycle_iff hfresh hwants hopen hreach).mp ((hmembers member).mp hmember)
    obtain ⟨parent, hlink, _⟩ := TransGen.head'_iff.mp hcycle
    exact ⟨parent, hlink.2⟩)
  refine ⟨_, records, ?_, sameClasses_detachAll members,
    hprogress.detachAll hwants hfresh hopen hreach hmembers, members, ?_, ?_, hrecords⟩
  · obtain ⟨parentInfo, hparent, hextendable⟩ := hopen
    have hthrough : hierarchy.cycleThrough? info.wantedParent name = some members.tail :=
      if_pos ((mem_chain_iff hprogress.acyclic).mpr hreach)
    simp only [link, hget, hparent, hextendable, hthrough, if_true]
    exact hreports
  · refine List.nodup_cons.mpr ⟨fun hmem => ?_, ?_⟩
    · simpa using List.mem_takeWhile_imp hmem
    · exact (nodup_chain hprogress.acyclic _ _).sublist (List.takeWhile_sublist _)
  · exact fun other => (hmembers other).trans
      (newlyDefaulted_iff hprogress hfresh hget hroot hopen hreach).symm

end LinkStep

/-! ## All links -/

theorem exists_linkStep {linked : List String} {name : String}
    (hprogress : Progress hierarchy linked) (hfresh : name ∉ linked)
    (hname : name ∈ hierarchy.names) (hroot : name ≠ Ty.objectName) :
    ∃ next records, LinkStep hierarchy linked name next records := by
  obtain ⟨info, hget⟩ := exists_get?_of_mem_names hname
  by_cases hopen : hierarchy.Extendable info.wantedParent
  · by_cases hreach : ReflTransGen hierarchy.IsParent info.wantedParent name
    · exact linkStep_of_cycle hprogress hfresh hget hroot hopen hreach
    · exact ⟨_, _, linkStep_of_acyclic hprogress hfresh hget hroot hopen hreach⟩
  · obtain ⟨record, hstep⟩ := linkStep_of_closed hprogress hfresh hget hroot hopen
    exact ⟨_, _, hstep⟩

/-- What one more link adds and what the links after it add is what all of them add. -/
theorem newlyDefaulted_or_later_iff {linked all : List String} {name other : String}
    (hall : name :: linked ⊆ all) :
    hierarchy.NewlyDefaulted linked name other ∨
        (other ∈ all ∧ hierarchy.Defaulted all other) ∧
          ¬ (other ∈ name :: linked ∧ hierarchy.Defaulted (name :: linked) other) ↔
      (other ∈ all ∧ hierarchy.Defaulted all other) ∧
        ¬ (other ∈ linked ∧ hierarchy.Defaulted linked other) := by
  constructor
  · rintro (⟨hnow, hnot⟩ | ⟨hlater, hnot⟩)
    · exact ⟨⟨hall hnow.1, hnow.2.mono hall⟩, hnot⟩
    · refine ⟨hlater, fun hbefore => hnot ⟨List.mem_cons_of_mem _ hbefore.1, ?_⟩⟩
      exact hbefore.2.mono (List.subset_cons_self name linked)
  · rintro ⟨hlater, hnot⟩
    by_cases hnow : other ∈ name :: linked ∧ hierarchy.Defaulted (name :: linked) other
    · exact .inl ⟨hnow, hnot⟩
    · exact .inr ⟨hlater, hnow⟩

/-- Linking classes one after the other reports each class that has to do without a
parent once, whatever the order. -/
theorem exists_foldlM_link {names linked : List String} (hprogress : Progress hierarchy linked)
    (hnodup : names.Nodup) (hfresh : ∀ name ∈ names, name ∉ linked)
    (hnames : ∀ name ∈ names, name ∈ hierarchy.names ∧ name ≠ Ty.objectName) :
    ∃ (next : Hierarchy) (records : List Diagnostic) (defaulted : List String),
      Reports (names.foldlM link hierarchy) next records ∧
      SameClasses hierarchy next ∧ Progress next (names.reverse ++ linked) ∧
      defaulted.Nodup ∧
      (∀ name, name ∈ defaulted ↔
        (name ∈ names.reverse ++ linked ∧ hierarchy.Defaulted (names.reverse ++ linked) name) ∧
          ¬ (name ∈ linked ∧ hierarchy.Defaulted linked name)) ∧
      records.map some = defaulted.map hierarchy.linkRecord? := by
  induction names generalizing hierarchy linked with
  | nil =>
      refine ⟨hierarchy, [], [], .pure hierarchy, ⟨rfl, fun _ => rfl⟩, hprogress,
        List.nodup_nil, fun name => ⟨fun h => (by cases h), fun h => absurd h.1 h.2⟩, rfl⟩
  | cons name names ih =>
      rw [List.nodup_cons] at hnodup
      rw [List.forall_mem_cons] at hfresh hnames
      obtain ⟨next, records, hstep⟩ :=
        exists_linkStep hprogress hfresh.1 hnames.1.1 hnames.1.2
      obtain ⟨newly, hnewly, hmem, hrecords⟩ := hstep.defaulted
      have hrest : ∀ other ∈ names, other ∉ name :: linked := by
        intro other hother
        rw [List.mem_cons, not_or]
        exact ⟨fun heq => hnodup.1 (heq ▸ hother), hfresh.2 other hother⟩
      obtain ⟨last, more, later, hreports, hsame, hlast, hlater, hmem', hmore⟩ :=
        ih hstep.progress hnodup.2 hrest (by rw [hstep.same.1]; exact hnames.2)
      rw [hstep.same.defaulted] at hmem'
      rw [hstep.same.linkRecord?] at hmore
      have hall : (name :: names).reverse ++ linked = names.reverse ++ name :: linked := by
        rw [List.reverse_cons, List.append_assoc, List.singleton_append]
      rw [hall]
      refine ⟨last, records ++ more, newly ++ later, ?_, hstep.same.trans hsame, hlast, ?_, ?_, ?_⟩
      · rw [List.foldlM_cons]
        exact .bind hstep.reports hreports
      · refine List.nodup_append'.mpr ⟨hnewly, hlater, fun other hother hother' => ?_⟩
        exact ((hmem' other).mp hother').2 ((hmem other).mp hother).1
      · intro other
        rw [List.mem_append, hmem, hmem']
        exact newlyDefaulted_or_later_iff (List.subset_append_right _ _)
      · rw [List.map_append, List.map_append, hrecords, hmore]

end ClassLang.Hierarchy
