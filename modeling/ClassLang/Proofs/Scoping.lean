/-
# Scopes that are opened and closed

Scopes change in steps: one is opened, the innermost is closed, or a name is given a value.
What a name means afterwards can be told from the steps alone. An entry is there as long as
no later step has closed the scope that it was made in; of the scopes that are still open
the innermost that has the name decides, and in it the latest entry.

So steps in which all scopes are nested leave nothing behind once the scope around them is
closed. Steps of any kind, also those that close more scopes than they open, only ever add
to the outermost scope.
-/

import Mathlib.Data.List.Induction
import Mathlib.Data.List.Infix
import ClassLang.Scope

namespace ClassLang.Scopes

variable {α : Type}

/-! ## Steps -/

/-- A change of scopes. -/
inductive Step (α : Type) where
  | enter
  | leave
  | add (name : String) (value : α)
  deriving DecidableEq, Repr

/-- Make one step. -/
def step (scopes : Scopes α) : Step α → Scopes α
  | .enter => scopes.enter
  | .leave => scopes.leave
  | .add name value => scopes.add name value

/-- Make steps one after the other. -/
def run (scopes : Scopes α) (steps : List (Step α)) : Scopes α :=
  steps.foldl step scopes

/-- Steps that close each scope that they open, and no other. -/
inductive Nested : List (Step α) → Prop
  | nil : Nested []
  | add {steps : List (Step α)} (name : String) (value : α) (hsteps : Nested steps) :
      Nested (.add name value :: steps)
  | scope {body steps : List (Step α)} (hbody : Nested body) (hsteps : Nested steps) :
      Nested (.enter :: (body ++ .leave :: steps))

/-- Whether the step opens a scope. -/
def Step.opens : Step α → Bool
  | .enter => true
  | _ => false

/-- Whether the step closes a scope. -/
def Step.closes : Step α → Bool
  | .leave => true
  | _ => false

/-- How many scopes the steps open. -/
def opened (steps : List (Step α)) : Nat :=
  steps.countP Step.opens

/-- How many scopes the steps close. -/
def closed (steps : List (Step α)) : Nat :=
  steps.countP Step.closes

/-- How many of the scopes that the steps open are open at their end. -/
def level (steps : List (Step α)) : Nat :=
  opened steps - closed steps

/-- The steps close no scope that was open before them. -/
def Keeps (steps : List (Step α)) : Prop :=
  ∀ front, front <+: steps → closed front ≤ opened front

/-! ## What the steps say of a name -/

/-- After the steps `earlier` the name is given a value, in a scope that is still open at the
end. -/
def Binds (steps : List (Step α)) (name : String) (earlier : List (Step α)) (value : α) : Prop :=
  ∃ later, steps = earlier ++ .add name value :: later ∧ Keeps later

/-- What the name is in the open scope at a level: its latest value, if it was given one
there. -/
inductive Recorded (steps : List (Step α)) (height : Nat) (name : String) : Option α → Prop
  | latest {earlier : List (Step α)} {value : α} (hbinds : Binds steps name earlier value)
      (hlevel : level earlier = height)
      (hlatest : ∀ other old, Binds steps name other old → level other = height →
        other.length ≤ earlier.length) : Recorded steps height name (some value)
  | absent (habsent : ∀ earlier value, Binds steps name earlier value → level earlier ≠ height) :
      Recorded steps height name none

/-- What the name means: what it is in the innermost open scope that has it, and else what it
was `outside`. -/
inductive Means (steps : List (Step α)) (name : String) (outside : Option α) : Option α → Prop
  | inner {height : Nat} {value : α} (hrecorded : Recorded steps height name (some value))
      (hinner : ∀ deeper, height < deeper → Recorded steps deeper name none) :
      Means steps name outside (some value)
  | outer (hnone : ∀ height, Recorded steps height name none) : Means steps name outside outside

/-! ## Counting scopes -/

section Counting

variable {steps later : List (Step α)}

@[simp]
theorem opened_nil : opened ([] : List (Step α)) = 0 := rfl

@[simp]
theorem closed_nil : closed ([] : List (Step α)) = 0 := rfl

@[simp]
theorem opened_append (steps later : List (Step α)) :
    opened (steps ++ later) = opened steps + opened later :=
  List.countP_append

@[simp]
theorem closed_append (steps later : List (Step α)) :
    closed (steps ++ later) = closed steps + closed later :=
  List.countP_append

@[simp]
theorem opened_cons (first : Step α) (steps : List (Step α)) :
    opened (first :: steps) = opened steps + first.opens.toNat := by
  rw [opened, List.countP_cons, opened]
  cases first.opens <;> rfl

@[simp]
theorem closed_cons (first : Step α) (steps : List (Step α)) :
    closed (first :: steps) = closed steps + first.closes.toNat := by
  rw [closed, List.countP_cons, closed]
  cases first.closes <;> rfl

theorem keeps_nil : Keeps ([] : List (Step α)) := by
  intro front hfront
  rw [List.prefix_nil.mp hfront]
  exact Nat.le_refl _

theorem keeps_concat {last : Step α} :
    Keeps (steps ++ [last]) ↔
      Keeps steps ∧ closed (steps ++ [last]) ≤ opened (steps ++ [last]) := by
  unfold Keeps
  simp only [List.prefix_concat_iff, or_imp, forall_and, forall_eq]
  exact and_comm

theorem Keeps.closed_le (hkeeps : Keeps steps) : closed steps ≤ opened steps :=
  hkeeps steps List.prefix_rfl

theorem Keeps.of_append (hkeeps : Keeps (steps ++ later)) : Keeps steps :=
  fun front hfront => hkeeps front (hfront.trans (List.prefix_append _ _))

theorem Keeps.append (hkeeps : Keeps steps) (hlater : Keeps later) : Keeps (steps ++ later) := by
  induction later using List.reverseRecOn with
  | nil => rwa [List.append_nil]
  | append_singleton later last ih =>
      rw [keeps_concat] at hlater
      rw [← List.append_assoc, keeps_concat, List.append_assoc, opened_append, closed_append]
      exact ⟨ih hlater.1, Nat.add_le_add hkeeps.closed_le hlater.2⟩

theorem keeps_singleton {only : Step α} (honly : only.closes = false) : Keeps [only] := by
  refine keeps_concat.mpr ⟨keeps_nil, ?_⟩
  simp [honly]

theorem keeps_concat_of_not_closes {last : Step α} (hlast : last.closes = false) :
    Keeps (steps ++ [last]) ↔ Keeps steps :=
  ⟨Keeps.of_append, fun hkeeps => hkeeps.append (keeps_singleton hlast)⟩

theorem keeps_concat_leave :
    Keeps (steps ++ [Step.leave]) ↔ Keeps steps ∧ closed steps < opened steps := by
  rw [keeps_concat]
  refine and_congr_right fun _ => ?_
  simp only [opened_append, closed_append, opened_cons, closed_cons, opened_nil, closed_nil,
    Step.opens, Step.closes, Bool.toNat_true, Bool.toNat_false]
  omega

/-- Nested steps come back to where they started, and never go below it. -/
theorem Nested.balanced (hnested : Nested steps) : Keeps steps ∧ opened steps = closed steps := by
  induction hnested with
  | nil => exact ⟨keeps_nil, rfl⟩
  | @add steps name value _ ih =>
      have hadd : Keeps [Step.add name value] := keeps_singleton rfl
      refine ⟨hadd.append ih.1, ?_⟩
      rw [opened_cons, closed_cons, ih.2]
      rfl
  | @scope body steps _ _ ihbody ihsteps =>
      have henter : Keeps [(Step.enter : Step α)] := keeps_singleton rfl
      have hcount : opened (Step.enter :: (body ++ [Step.leave])) =
          closed (Step.enter :: (body ++ [Step.leave])) := by
        simp [Step.opens, Step.closes, ihbody.2]
      have hscope : Keeps (Step.enter :: (body ++ [Step.leave])) :=
        keeps_concat.mpr ⟨henter.append ihbody.1, hcount.ge⟩
      have hsplit : Step.enter :: (body ++ Step.leave :: steps) =
          Step.enter :: (body ++ [Step.leave]) ++ steps := by simp
      rw [hsplit]
      refine ⟨hscope.append ihsteps.1, ?_⟩
      rw [opened_append, closed_append, hcount, ihsteps.2]

theorem Nested.level_eq_zero (hnested : Nested steps) : level steps = 0 := by
  rw [level, hnested.balanced.2, Nat.sub_self]

end Counting

/-! ## Entries in open scopes -/

section Entries

variable {steps earlier : List (Step α)} {name : String} {value : α} {result : Option α}
  {height : Nat}

theorem Binds.level_le (hbinds : Binds steps name earlier value) : level earlier ≤ level steps := by
  obtain ⟨later, rfl, hlater⟩ := hbinds
  have hle := hlater.closed_le
  simp only [level, opened_append, closed_append, opened_cons, closed_cons, Step.opens,
    Step.closes, Bool.toNat_false]
  omega

theorem concat_eq_append_cons_iff {last piece : Step α} {later : List (Step α)} :
    steps ++ [last] = earlier ++ piece :: later ↔
      (later = [] ∧ steps = earlier ∧ last = piece) ∨
        ∃ front, later = front ++ [last] ∧ steps = earlier ++ piece :: front := by
  constructor
  · intro hsteps
    rcases List.eq_nil_or_concat later with rfl | ⟨front, other, rfl⟩
    · obtain ⟨hfront, hlast⟩ := List.append_inj' hsteps rfl
      exact .inl ⟨rfl, hfront, (List.cons.inj hlast).1⟩
    · rw [List.concat_eq_append, ← List.cons_append, ← List.append_assoc] at hsteps
      obtain ⟨hfront, hlast⟩ := List.append_inj' hsteps rfl
      cases hlast
      exact .inr ⟨front, List.concat_eq_append, hfront⟩
  · rintro (⟨rfl, rfl, rfl⟩ | ⟨front, rfl, rfl⟩)
    · rfl
    · simp

theorem binds_concat {last : Step α} :
    Binds (steps ++ [last]) name earlier value ↔
      (earlier = steps ∧ last = .add name value) ∨
        ∃ later, steps = earlier ++ Step.add name value :: later ∧ Keeps (later ++ [last]) := by
  simp only [Binds, concat_eq_append_cons_iff]
  constructor
  · rintro ⟨_, ⟨rfl, rfl, hlast⟩ | ⟨later, rfl, hsteps⟩, hkeeps⟩
    · exact .inl ⟨rfl, hlast⟩
    · exact .inr ⟨later, hsteps, hkeeps⟩
  · rintro (⟨rfl, hlast⟩ | ⟨later, hsteps, hkeeps⟩)
    · exact ⟨[], .inl ⟨rfl, rfl, hlast⟩, keeps_nil⟩
    · exact ⟨later ++ [last], .inr ⟨later, rfl, hsteps⟩, hkeeps⟩

theorem binds_concat_of_not_closes {last : Step α} (hlast : last.closes = false) :
    Binds (steps ++ [last]) name earlier value ↔
      (earlier = steps ∧ last = .add name value) ∨ Binds steps name earlier value := by
  rw [binds_concat]
  simp only [keeps_concat_of_not_closes hlast]
  rfl

/-- The end is deeper than an entry just if more scopes were opened than closed since. -/
theorem level_lt_iff {later : List (Step α)}
    (hkeeps : Keeps (earlier ++ Step.add name value :: later)) :
    level earlier < level (earlier ++ Step.add name value :: later) ↔
      closed later < opened later := by
  have hle := hkeeps.of_append.closed_le
  simp only [level, opened_append, closed_append, opened_cons, closed_cons, Step.opens,
    Step.closes, Bool.toNat_false]
  omega

/-- A scope that is closed takes its entries along. -/
theorem binds_concat_leave (hkeeps : Keeps steps) :
    Binds (steps ++ [Step.leave]) name earlier value ↔
      Binds steps name earlier value ∧ level earlier < level steps := by
  rw [binds_concat]
  simp only [keeps_concat_leave]
  constructor
  · rintro (⟨_, hlast⟩ | ⟨later, rfl, hlater, hlt⟩)
    · cases hlast
    · exact ⟨⟨later, rfl, hlater⟩, (level_lt_iff hkeeps).mpr hlt⟩
  · rintro ⟨⟨later, rfl, hlater⟩, hlevel⟩
    exact .inr ⟨later, rfl, hlater, (level_lt_iff hkeeps).mp hlevel⟩

/-- What is recorded at a level depends on the entries of that level only. -/
theorem Recorded.congr {others : List (Step α)} (hrecorded : Recorded steps height name result)
    (hsame : ∀ earlier value, level earlier = height →
      (Binds steps name earlier value ↔ Binds others name earlier value)) :
    Recorded others height name result := by
  cases hrecorded with
  | latest hbinds hlevel hlatest =>
      refine .latest ((hsame _ _ hlevel).mp hbinds) hlevel fun other old hother hheight => ?_
      exact hlatest other old ((hsame _ _ hheight).mpr hother) hheight
  | absent habsent =>
      refine .absent fun earlier value hbinds hheight => ?_
      exact habsent earlier value ((hsame _ _ hheight).mpr hbinds) hheight

theorem recorded_of_level_lt (hheight : level steps < height) :
    Recorded steps height name none := by
  refine .absent fun earlier value hbinds hlevel => ?_
  have hle := hbinds.level_le
  omega

/-- A step that closes nothing changes what is recorded only where it makes an entry. -/
theorem Recorded.concat {last : Step α} (hlast : last.closes = false)
    (hother : height < level steps ∨ ∀ new, last ≠ .add name new)
    (hrecorded : Recorded steps height name result) :
    Recorded (steps ++ [last]) height name result := by
  refine hrecorded.congr fun earlier value hlevel => ?_
  rw [binds_concat_of_not_closes hlast, or_iff_right]
  rintro ⟨rfl, hadd⟩
  rcases hother with hheight | hne
  · omega
  · exact hne value hadd

theorem Recorded.concat_leave (hkeeps : Keeps steps) (hheight : height < level steps)
    (hrecorded : Recorded steps height name result) :
    Recorded (steps ++ [Step.leave]) height name result := by
  refine hrecorded.congr fun earlier value hlevel => ?_
  rw [binds_concat_leave hkeeps, hlevel]
  exact (and_iff_left hheight).symm

/-- The last value that a name is given in the innermost scope is its latest there. -/
theorem recorded_concat_add (steps : List (Step α)) (name : String) (value : α) :
    Recorded (steps ++ [Step.add name value]) (level steps) name (some value) := by
  refine .latest ((binds_concat_of_not_closes rfl).mpr (.inl ⟨rfl, rfl⟩)) rfl ?_
  intro other old hbinds _
  rcases (binds_concat_of_not_closes rfl).mp hbinds with ⟨rfl, _⟩ | ⟨later, rfl, _⟩
  · exact Nat.le_refl _
  · simp

end Entries

/-! ## Scopes reflect their entries -/

/-- Scopes, from the inside out, that hold just what is recorded at each level. -/
inductive Reflects (steps : List (Step α)) : Nat → List (Scope α) → Prop
  | nil : Reflects steps 0 []
  | cons {height : Nat} {scope : Scope α} {scopes : List (Scope α)}
      (hscope : ∀ name, Recorded steps height name (scope.lookup name))
      (hscopes : Reflects steps height scopes) : Reflects steps (height + 1) (scope :: scopes)

section Reflects

variable {steps others : List (Step α)} {height : Nat} {frames : List (Scope α)} {scope : Scope α}

theorem Reflects.imp (hreflects : Reflects steps height frames)
    (himp : ∀ lower name result, lower < height → Recorded steps lower name result →
      Recorded others lower name result) : Reflects others height frames := by
  induction hreflects with
  | nil => exact .nil
  | @cons height _ _ hscope _ ih =>
      refine .cons (fun name => himp height name _ (Nat.lt_succ_self _) (hscope name)) (ih ?_)
      exact fun lower name result hlower => himp lower name result (Nat.lt_succ_of_lt hlower)

theorem Reflects.enter (hreflects : Reflects steps (level steps + 1) frames) :
    Reflects (steps ++ [Step.enter]) (level steps + 2) ([] :: frames) := by
  have hkept {lower : Nat} {name : String} {result : Option α}
      (hrecorded : Recorded steps lower name result) :
      Recorded (steps ++ [Step.enter]) lower name result :=
    hrecorded.concat rfl (.inr fun _ => nofun)
  refine .cons (fun name => ?_) (hreflects.imp fun _ _ _ _ hrecorded => hkept hrecorded)
  exact hkept (recorded_of_level_lt (Nat.lt_succ_self _))

theorem Reflects.leave (hkeeps : Keeps steps)
    (hreflects : Reflects steps (level steps + 1) (scope :: frames)) :
    Reflects (steps ++ [Step.leave]) (level steps) frames := by
  cases hreflects with
  | cons _ hframes => exact hframes.imp fun _ _ _ hlower hrecorded =>
      hrecorded.concat_leave hkeeps hlower

theorem Reflects.add (name : String) (value : α)
    (hreflects : Reflects steps (level steps + 1) (scope :: frames)) :
    Reflects (steps ++ [Step.add name value]) (level steps + 1)
      (((name, value) :: scope) :: frames) := by
  cases hreflects with
  | cons hscope hframes =>
      refine .cons (fun other => ?_) (hframes.imp fun _ _ _ hlower hrecorded =>
        hrecorded.concat rfl (.inl hlower))
      rw [List.lookup_cons]
      by_cases hother : other = name
      · rw [beq_iff_eq.mpr hother, hother]
        exact recorded_concat_add steps name value
      · rw [beq_eq_false_iff_ne.mpr hother]
        refine (hscope other).concat rfl (.inr fun new hadd => hother ?_)
        cases hadd
        rfl

/-- The innermost scope that has a name decides. -/
theorem Reflects.means (hreflects : Reflects steps height frames) (name : String)
    (hdeeper : ∀ deeper, height ≤ deeper → Recorded steps deeper name none) (outside : Option α) :
    Means steps name outside
      ((frames.findSome? fun scope => scope.lookup name).or outside) := by
  induction hreflects with
  | nil => exact .outer fun deeper => hdeeper deeper (Nat.zero_le _)
  | @cons height scope frames hscope _ ih =>
      have hhere := hscope name
      rw [List.findSome?_cons]
      cases hfound : scope.lookup name with
      | some value =>
          rw [hfound] at hhere
          exact .inner hhere hdeeper
      | none =>
          rw [hfound] at hhere
          refine ih fun deeper hheight => ?_
          rcases Nat.eq_or_lt_of_le hheight with rfl | hlt
          · exact hhere
          · exact hdeeper deeper hlt

end Reflects

theorem run_concat (scopes : Scopes α) (steps : List (Step α)) (last : Step α) :
    scopes.run (steps ++ [last]) = (scopes.run steps).step last :=
  List.foldl_concat ..

/-- The scopes that were there before stay as they are below those that are opened. -/
theorem exists_reflects_run (scopes : Scopes α) {steps : List (Step α)} (hkeeps : Keeps steps) :
    ∃ scope frames,
      scopes.run (.enter :: steps) = ⟨scope, frames ++ (scopes.inner :: scopes.outer)⟩ ∧
        Reflects steps (level steps + 1) (scope :: frames) := by
  induction steps using List.reverseRecOn with
  | nil =>
      refine ⟨[], [], rfl, .cons (fun name => .absent ?_) .nil⟩
      rintro earlier value ⟨later, hnil, _⟩
      simp at hnil
  | append_singleton steps last ih =>
      rw [keeps_concat] at hkeeps
      obtain ⟨hkeeps, hlast⟩ := hkeeps
      have hle := hkeeps.closed_le
      obtain ⟨scope, frames, hrun, hreflects⟩ := ih hkeeps
      rw [← List.cons_append, run_concat, hrun]
      cases last with
      | enter =>
          have hlevel : level (steps ++ [Step.enter]) = level steps + 1 := by
            simp [level, Step.opens, Step.closes]
            omega
          rw [hlevel]
          exact ⟨[], scope :: frames, rfl, hreflects.enter⟩
      | leave =>
          have hlevel : level steps = level (steps ++ [Step.leave]) + 1 := by
            simp [level, Step.opens, Step.closes] at hlast ⊢
            omega
          have houter := hreflects.leave hkeeps
          rw [hlevel] at houter
          cases houter with
          | cons hscope hframes => exact ⟨_, _, rfl, .cons hscope hframes⟩
      | add name value =>
          have hlevel : level (steps ++ [Step.add name value]) = level steps := by
            simp [level, Step.opens, Step.closes]
          rw [hlevel]
          exact ⟨(name, value) :: scope, frames, rfl, hreflects.add name value⟩

theorem lookup_append (scope : Scope α) (frames : List (Scope α)) (scopes : Scopes α)
    (name : String) :
    Scopes.lookup ⟨scope, frames ++ (scopes.inner :: scopes.outer)⟩ name =
      ((scope :: frames).findSome? fun scope => scope.lookup name).or (scopes.lookup name) := by
  rw [Scopes.lookup, Scopes.lookup, ← List.cons_append, List.findSome?_append]

/-! ## Any steps at all -/

/-- The outermost scope. -/
def outermost (scopes : Scopes α) : Scope α :=
  (scopes.inner :: scopes.outer).getLast (List.cons_ne_nil _ _)

theorem leave_of_depth (scopes : Scopes α) (hdepth : scopes.depth = 1) :
    scopes.leave = scopes := by
  obtain ⟨inner, outer⟩ := scopes
  cases outer with
  | nil => rfl
  | cons scope outer => simp [depth] at hdepth

/-- Only an entry that is made while no other scope is open changes the outermost scope. -/
theorem exists_outermost_step (scopes : Scopes α) (last : Step α) :
    ∃ entry, (scopes.step last).outermost = entry ++ scopes.outermost ∧
      ∀ name value, (name, value) ∈ entry ↔ last = .add name value ∧ scopes.depth = 1 := by
  obtain ⟨inner, outer⟩ := scopes
  cases last with
  | enter => exact ⟨[], by simp [outermost, step, enter], by simp⟩
  | leave =>
      refine ⟨[], ?_, by simp⟩
      cases outer with
      | nil => rfl
      | cons scope outer => simp [outermost, step, leave]
  | add name value =>
      cases outer with
      | nil => exact ⟨[(name, value)], rfl, by simp [depth, eq_comm]⟩
      | cons scope outer => exact ⟨[], by simp [outermost, step, add], by simp [depth]⟩

/-- The outermost scope keeps all its entries, and gets those that are made while no other
scope is open. -/
theorem exists_outermost_run (scopes : Scopes α) (steps : List (Step α)) :
    ∃ added, (scopes.run steps).outermost = added ++ scopes.outermost ∧
      ∀ name value, (name, value) ∈ added ↔
        ∃ earlier later, steps = earlier ++ Step.add name value :: later ∧
          (scopes.run earlier).depth = 1 := by
  induction steps using List.reverseRecOn with
  | nil => exact ⟨[], rfl, by simp⟩
  | append_singleton steps last ih =>
      obtain ⟨added, hrun, hadded⟩ := ih
      obtain ⟨entry, hstep, hentry⟩ := exists_outermost_step (scopes.run steps) last
      refine ⟨entry ++ added, ?_, fun name value => ?_⟩
      · rw [run_concat, hstep, hrun, List.append_assoc]
      · simp only [List.mem_append, hentry, hadded, concat_eq_append_cons_iff]
        constructor
        · rintro (⟨rfl, hdepth⟩ | ⟨earlier, later, hsteps, hdepth⟩)
          · exact ⟨steps, [], .inl ⟨rfl, rfl, rfl⟩, hdepth⟩
          · exact ⟨earlier, later ++ [last], .inr ⟨later, rfl, hsteps⟩, hdepth⟩
        · rintro ⟨earlier, _, ⟨rfl, rfl, hlast⟩ | ⟨later, rfl, hsteps⟩, hdepth⟩
          · exact .inl ⟨hlast, hdepth⟩
          · exact .inr ⟨earlier, later, hsteps, hdepth⟩

/-! ## Block structure -/

/-- Scopes obey block structure. -/
structure BlockStructured (scopes : Scopes α) : Prop where
  /-- Nested steps leave nothing behind when the scope around them is closed. -/
  restored : ∀ {steps : List (Step α)}, Nested steps →
    scopes.run (.enter :: (steps ++ [.leave])) = scopes
  /-- On the way a name means what it is in the innermost open scope that has it. -/
  lookup : ∀ {steps before : List (Step α)}, Nested steps → before <+: steps → ∀ name,
    Means before name (scopes.lookup name) ((scopes.run (.enter :: before)).lookup name)
  /-- A look into the innermost scope finds what is recorded there. -/
  peek : ∀ {steps before : List (Step α)}, Nested steps → before <+: steps → ∀ name,
    Recorded before (level before) name ((scopes.run (.enter :: before)).peek name)
  depth_pos : ∀ steps, 1 ≤ (scopes.run steps).depth
  /-- The last scope is not closed, whatever the steps before were. -/
  surplus : ∀ steps, (scopes.run steps).depth = 1 →
    scopes.run (steps ++ [.leave]) = scopes.run steps
  outermost : ∀ steps, ∃ added, (scopes.run steps).outermost = added ++ scopes.outermost ∧
    ∀ name value, (name, value) ∈ added ↔
      ∃ earlier later, steps = earlier ++ .add name value :: later ∧
        (scopes.run earlier).depth = 1

theorem run_nested (scopes : Scopes α) {steps : List (Step α)} (hnested : Nested steps) :
    scopes.run (.enter :: (steps ++ [Step.leave])) = scopes := by
  obtain ⟨scope, frames, hrun, hreflects⟩ := exists_reflects_run scopes hnested.balanced.1
  rw [hnested.level_eq_zero] at hreflects
  -- at level zero there is only the scope that was entered first
  obtain rfl : frames = [] := by
    cases hreflects with
    | cons _ hframes => cases hframes; rfl
  rw [← List.cons_append, run_concat, hrun]
  rfl

/-- All scopes obey block structure, whatever has led to them. -/
theorem blockStructured (scopes : Scopes α) : BlockStructured scopes where
  restored := run_nested scopes
  lookup := by
    rintro steps before hnested ⟨after, rfl⟩ name
    obtain ⟨scope, frames, hrun, hreflects⟩ :=
      exists_reflects_run scopes hnested.balanced.1.of_append
    rw [hrun, lookup_append]
    exact hreflects.means name (fun deeper hdeeper => recorded_of_level_lt hdeeper) _
  peek := by
    rintro steps before hnested ⟨after, rfl⟩ name
    obtain ⟨scope, frames, hrun, hreflects⟩ :=
      exists_reflects_run scopes hnested.balanced.1.of_append
    rw [hrun]
    cases hreflects with
    | cons hscope _ => exact hscope name
  depth_pos := fun steps => Nat.succ_le_succ (Nat.zero_le _)
  surplus := by
    intro steps hdepth
    rw [run_concat]
    exact leave_of_depth _ hdepth
  outermost := exists_outermost_run scopes

/-- A variable that is shadowed twice, the second time for a while only. -/
def shadowing : List (Step Nat) :=
  [.add "x" 1, .enter, .add "x" 2, .leave, .add "y" 3]

theorem shadowing_blockStructured :
    let scopes := Scopes.empty.run [.leave, .add "x" 0]
    Nested shadowing ∧ scopes.run (.enter :: (shadowing ++ [.leave])) = scopes ∧
      Means (shadowing.take 3) "x" (some 0) (some 2) ∧
      Means (shadowing.take 4) "x" (some 0) (some 1) ∧
      Recorded (shadowing.take 2) 1 "x" none := by
  have hnested : Nested shadowing :=
    .add "x" 1 (.scope (.add "x" 2 .nil) (.add "y" 3 .nil))
  have hblock := blockStructured (Scopes.empty.run [.leave, .add "x" 0])
  have hinitial (count : Nat) : shadowing.take count <+: shadowing := List.take_prefix _ _
  exact ⟨hnested, hblock.restored hnested, hblock.lookup hnested (hinitial 3) "x",
    hblock.lookup hnested (hinitial 4) "x", hblock.peek hnested (hinitial 2) "x"⟩

end ClassLang.Scopes
