/-
# What the structural check decides

The check of a block stops at the first thing that it finds wrong, and counts as it
goes along the edges. What it decides is said here without an order and without a
counter: how many edges leave the block and where they lead, and how far the loop
depths of its neighbours are from its own. In a graph that operations make, an edge
always leads to a block, so nothing but the form of the block can make the check
fail, and the check of all blocks fails at the first block whose own check does.
-/

import Mathlib.Data.List.Permutation
import ClassLang.Graph.WellFormed
import ClassLang.Proofs.Graph.Representation

namespace ClassLang.Graph

open ClassLang.Code

variable {graph : Graph} {block : Block} {side : Side}

/-! ## The form of a block -/

/-- The edges that leave a block suit the way in which it ends. -/
inductive Block.ExitsFit (block : Block) : Prop where
  | empty (hempty : block.instructions = []) (hcount : block.succs.length = 1)
  /-- The two edges lead to the targets of the branch. Where these are the same block,
  both edges lead there. -/
  | branch {op : Comparison} {left right : String} {onTrue onFalse : BlockId}
      (hlast : block.last? = some (.branch op left right onTrue onFalse))
      (htargets : block.succs.Perm [onTrue, onFalse])
  | ret {value : Option String} (hlast : block.last? = some (.ret value))
      (hcount : block.succs.length ≤ 1)
  | plain {operation : Operation} (hlast : block.last? = some operation)
      (hbranch : operation.isBranch = false) (hreturn : operation.isReturn = false)
      (hcount : block.succs.length = 1)

/-- The loop depth of a neighbour is at most one away. -/
def IsNear (graph : Graph) (block : Block) (id : BlockId) : Prop :=
  ∃ other, graph.block? id = some other ∧
    other.loopDepth ≤ block.loopDepth + 1 ∧ block.loopDepth ≤ other.loopDepth + 1

/-- Along the edges on one side of a block the loop depth changes by at most one, and
it changes along at most one of them. An edge that is there twice counts twice. -/
structure DepthsFit (graph : Graph) (block : Block) (side : Side) : Prop where
  near : ∀ id ∈ block.neighbours side, IsNear graph block id
  few : (block.neighbours side).countP
    (fun id => loopDepth? graph id ≠ some block.loopDepth) ≤ 1

/-- A block has the form that every block of finished code has. -/
structure WellFormed (graph : Graph) (block : Block) : Prop where
  exits : block.ExitsFit
  depths : ∀ side, DepthsFit graph block side

/-- An answer about a block that does not blame anything else. -/
def Block.PassesOrMalformed (block : Block) (answer : Except GraphError Unit) : Prop :=
  answer = .ok () ∨ ∃ defect, answer = .error (.malformedBlock block defect)

/-! ## Edges out of a block -/

theorem last?_eq_none_iff : block.last? = none ↔ block.instructions = [] := by
  simp [Block.last?]

/-- Sorting two block numbers only forgets their order. -/
theorem sortedPair_eq_iff {first second onTrue onFalse : BlockId} :
    sortedPair onTrue onFalse = sortedPair first second ↔
      [first, second].Perm [onTrue, onFalse] := by
  have hsame {id other : BlockId} (hle : id.toNat ≤ other.toNat) (hge : other.toNat ≤ id.toNat) :
      id = other := by
    rw [← id.ofNat_toNat, Nat.le_antisymm hle hge, other.ofNat_toNat]
  rw [List.perm_pair, List.cons.injEq, List.cons.injEq, List.cons.injEq, List.cons.injEq]
  unfold sortedPair
  grind

/-- Nothing is wrong with the edges that leave a block exactly when they suit its end. -/
theorem Block.exitDefect?_eq_none_iff : block.exitDefect? = none ↔ block.ExitsFit := by
  constructor
  · intro hnone
    unfold exitDefect? at hnone
    cases hlast : block.last? with
    | none =>
        simp only [hlast, ite_eq_left_iff, reduceCtorEq, imp_false, not_not] at hnone
        exact .empty (last?_eq_none_iff.mp hlast) hnone
    | some operation =>
        cases operation with
        | branch op left right onTrue onFalse =>
            simp only [hlast] at hnone
            split at hnone
            next first second hsuccs =>
              split at hnone
              next hsorted => exact .branch hlast (hsuccs ▸ sortedPair_eq_iff.mp hsorted)
              next => cases hnone
            next => cases hnone
        | ret value =>
            simp only [hlast, ite_eq_left_iff, reduceCtorEq, imp_false, not_not] at hnone
            exact .ret hlast hnone
        | _ =>
            simp only [hlast, ite_eq_left_iff, reduceCtorEq, imp_false, not_not] at hnone
            exact .plain hlast rfl rfl hnone
  · intro hfit
    unfold exitDefect?
    cases hfit with
    | empty hempty hcount => simp [last?_eq_none_iff.mpr hempty, hcount]
    | branch hlast htargets =>
        obtain ⟨first, second, hsuccs⟩ := List.length_eq_two.mp htargets.length_eq
        rw [hsuccs] at htargets
        simp [hlast, hsuccs, sortedPair_eq_iff.mpr htargets]
    | ret hlast hcount => simp [hlast, hcount]
    | @plain operation hlast hbranch hreturn hcount =>
        cases operation <;> simp_all [Operation.isBranch, Operation.isReturn]

/-! ## Loop depths along edges -/

theorem depthDistance_le_one_iff {depth other : Nat} :
    depthDistance depth other ≤ 1 ↔ depth ≤ other + 1 ∧ other ≤ depth + 1 := by
  unfold depthDistance
  omega

theorem depthDistance_eq_ite {depth other : Nat} (hnear : depthDistance depth other ≤ 1) :
    depthDistance depth other = if depth ≠ other then 1 else 0 := by
  unfold depthDistance at hnear ⊢
  split <;> omega

/-- A neighbour is examined by the distance of its loop depth. -/
theorem checkDepths_cons {id : BlockId} {other : Block} (hother : graph.block? id = some other)
    (changes : Nat) (ids : List BlockId) :
    checkDepths graph block side changes (id :: ids) =
      let gap := depthDistance other.loopDepth block.loopDepth
      if 1 < gap then .error (.malformedBlock block (.depthGap side id gap))
      else checkDepths graph block side (changes + gap) ids := by
  simp only [checkDepths, loopDepth?, hother, Option.map_some]

section Depths

variable {ids : List BlockId} (hknown : ∀ id ∈ ids, (graph.block? id).isSome)

include hknown

/-- The examination of one side passes if all distances are small and not too many of
them, with those before, are not zero. -/
theorem checkDepths_eq_ok_iff (changes : Nat) :
    checkDepths graph block side changes ids = .ok () ↔
      (∀ id ∈ ids, IsNear graph block id) ∧
        changes + ids.countP (fun id => loopDepth? graph id ≠ some block.loopDepth) ≤ 1 := by
  induction ids generalizing changes with
  | nil =>
      rw [checkDepths]
      split
      next hmany => simp [hmany]
      next hfew => simpa using hfew
  | cons id ids ih =>
      rw [List.forall_mem_cons] at hknown
      obtain ⟨other, hother⟩ := Option.isSome_iff_exists.mp hknown.1
      have hnear : IsNear graph block id ↔ depthDistance other.loopDepth block.loopDepth ≤ 1 := by
        simp [IsNear, hother, depthDistance_le_one_iff]
      rw [checkDepths_cons hother]
      dsimp only
      split
      next hfar => simp [hnear, hfar]
      next hclose =>
        rw [Nat.not_lt] at hclose
        have hstep : depthDistance other.loopDepth block.loopDepth =
            if loopDepth? graph id ≠ some block.loopDepth then 1 else 0 := by
          simp [depthDistance_eq_ite hclose, loopDepth?, hother]
        rw [ih hknown.2, List.forall_mem_cons, and_iff_right (hnear.mpr hclose),
          List.countP_cons, hstep, Nat.add_assoc, Nat.add_comm (ids.countP _)]
        simp only [decide_eq_true_eq]

/-- Where all neighbours are blocks of the graph, only the block itself can be found
wrong. -/
theorem passes_checkDepths (changes : Nat) :
    block.PassesOrMalformed (checkDepths graph block side changes ids) := by
  induction ids generalizing changes with
  | nil =>
      rw [checkDepths]
      split
      · exact .inr ⟨_, rfl⟩
      · exact .inl rfl
  | cons id ids ih =>
      rw [List.forall_mem_cons] at hknown
      obtain ⟨other, hother⟩ := Option.isSome_iff_exists.mp hknown.1
      rw [checkDepths_cons hother]
      dsimp only
      split
      · exact .inr ⟨_, rfl⟩
      · exact ih hknown.2 _

end Depths

/-! ## One block -/

section Check

variable {id : BlockId} (hblock : graph.block? id = some block)
  (hknown : ∀ side, ∀ other ∈ block.neighbours side, (graph.block? other).isSome)

include hknown in
theorem checkDepths_neighbours_eq_ok_iff (side : Side) :
    checkDepths graph block side 0 (block.neighbours side) = .ok () ↔
      DepthsFit graph block side := by
  rw [checkDepths_eq_ok_iff (hknown side), Nat.zero_add]
  exact ⟨fun hfit => ⟨hfit.1, hfit.2⟩, fun hfit => ⟨hfit.near, hfit.few⟩⟩

include hblock

theorem check_of_defect {defect : BlockDefect} (hdefect : block.exitDefect? = some defect) :
    check graph id = .error (.malformedBlock block defect) := by
  simp only [check, hblock, hdefect]

/-- Once the edges out of a block are right, its two sides are examined in turn. -/
theorem check_of_exits (hexits : block.exitDefect? = none) :
    check graph id =
      (checkDepths graph block .pred 0 (block.neighbours .pred)).bind fun _ =>
        checkDepths graph block .succ 0 (block.neighbours .succ) := by
  simp only [check, hblock, hexits]
  rfl

include hknown

/-- A block is found well-formed or malformed, and found well-formed when it is. -/
theorem check_decides :
    block.PassesOrMalformed (check graph id) ∧
      (check graph id = .ok () ↔ WellFormed graph block) := by
  cases hexits : block.exitDefect? with
  | some defect =>
      rw [check_of_defect hblock hexits]
      refine ⟨.inr ⟨defect, rfl⟩, nofun, fun hform => ?_⟩
      rw [Block.exitDefect?_eq_none_iff.mpr hform.exits] at hexits
      cases hexits
  | none =>
      have hfit := Block.exitDefect?_eq_none_iff.mp hexits
      have hpreds := checkDepths_neighbours_eq_ok_iff hknown .pred
      have hsuccs := checkDepths_neighbours_eq_ok_iff hknown .succ
      rw [check_of_exits hblock hexits]
      rcases @passes_checkDepths graph block .pred _ (hknown .pred) 0 with hok | ⟨defect, herror⟩
      · rw [hok, Except.bind]
        refine ⟨passes_checkDepths (hknown .succ) 0, fun hrest => ?_, fun hform => ?_⟩
        · refine ⟨hfit, fun side => ?_⟩
          cases side with
          | pred => exact hpreds.mp hok
          | succ => exact hsuccs.mp hrest
        · exact hsuccs.mpr (hform.depths .succ)
      · rw [herror, Except.bind]
        refine ⟨.inr ⟨defect, rfl⟩, nofun, fun hform => ?_⟩
        rw [hpreds.mpr (hform.depths .pred)] at herror
        cases herror

end Check

/-! ## All blocks -/

section ForM

variable {α ε : Type} {step : α → Except ε PUnit} {pieces : List α}

theorem forM_eq_ok_iff : pieces.forM step = .ok ⟨⟩ ↔ ∀ piece ∈ pieces, step piece = .ok ⟨⟩ := by
  induction pieces with
  | nil => simp [List.forM, pure, Except.pure]
  | cons piece pieces ih =>
      show (step piece).bind (fun _ => pieces.forM step) = .ok ⟨⟩ ↔ _
      rw [List.forall_mem_cons, ← ih]
      cases step piece <;> simp [Except.bind]

/-- A walk that fails does so at the first piece that fails. -/
theorem exists_of_forM_eq_error {error : ε} (herror : pieces.forM step = .error error) :
    ∃ before piece after, pieces = before ++ piece :: after ∧
      (∀ other ∈ before, step other = .ok ⟨⟩) ∧ step piece = .error error := by
  induction pieces with
  | nil => cases herror
  | cons piece pieces ih =>
      have hwalk : (step piece).bind (fun _ => pieces.forM step) = .error error := herror
      cases hpiece : step piece with
      | error found =>
          rw [hpiece] at hwalk
          cases hwalk
          exact ⟨[], piece, pieces, rfl, nofun, hpiece⟩
      | ok _ =>
          rw [hpiece] at hwalk
          obtain ⟨before, later, after, rfl, hbefore, hlater⟩ := ih hwalk
          exact ⟨piece :: before, later, after, rfl,
            List.forall_mem_cons.mpr ⟨hpiece, hbefore⟩, hlater⟩

end ForM

section Coherent

variable (hgraph : Coherent graph)

include hgraph

/-- The number of a block is that of a place in the graph. It is the place of the block
itself, unless the graph has more blocks than there are numbers. -/
theorem Coherent.id_toNat_lt (hblock : block ∈ graph.blocks) : block.id.toNat < graph.size := by
  obtain ⟨index, hindex⟩ := List.mem_iff_getElem?.mp hblock
  have hlt : index < graph.size := (List.getElem?_eq_some_iff.mp hindex).1
  by_cases hfits : index < UInt32.size
  · have hnat := BlockId.toNat_ofNat hfits
    have hfound : graph.block? (.ofNat index) = some block := by rw [block?, hnat, hindex]
    rw [(hgraph.sound _ _ hfound).id_eq, hnat]
    exact hlt
  · have hid := block.id.toNat_lt
    omega

theorem checkAll_eq_ok_iff :
    checkAll graph = .ok () ↔
      ∀ id block, graph.block? id = some block → check graph id = .ok () := by
  rw [checkAll]
  refine forM_eq_ok_iff.trans ⟨fun hall id block hblock => ?_, fun hall block hblock => ?_⟩
  · have hcheck := hall block (List.mem_of_getElem? hblock)
    rwa [(hgraph.sound id block hblock).id_eq] at hcheck
  · exact hall block.id _ (List.getElem?_eq_getElem (hgraph.id_toNat_lt hblock))

/-- The check of all blocks answers with the failure of the first block that fails. -/
theorem exists_of_checkAll_eq_error {error : GraphError} (herror : checkAll graph = .error error) :
    ∃ id block, graph.block? id = some block ∧ check graph id = .error error ∧
      ∀ other, other.toNat < id.toNat → check graph other = .ok () := by
  obtain ⟨before, block, after, hblocks, hbefore, hcheck⟩ := exists_of_forM_eq_error herror
  have hpassed : ∀ other : BlockId, other.toNat < before.length → check graph other = .ok () := by
    intro other hother
    have hplace : graph.block? other = before[other.toNat]? := by
      rw [block?, hblocks, List.getElem?_append_left hother]
    rw [List.getElem?_eq_getElem hother] at hplace
    have hcheck := hbefore _ (List.getElem_mem hother)
    rwa [(hgraph.sound _ _ hplace).id_eq] at hcheck
  -- a number of an earlier place is that of a block that has passed
  have hplace : before.length ≤ block.id.toNat := by
    by_contra hearlier
    rw [hpassed block.id (Nat.lt_of_not_le hearlier)] at hcheck
    cases hcheck
  have hnat := BlockId.toNat_ofNat (Nat.lt_of_le_of_lt hplace block.id.toNat_lt)
  have hfound : graph.block? (.ofNat before.length) = some block := by
    rw [block?, hnat, hblocks]
    simp
  have hid := (hgraph.sound _ _ hfound).id_eq
  refine ⟨.ofNat before.length, block, hfound, hid ▸ hcheck, ?_⟩
  rwa [hnat]

end Coherent

/-! ## What is decided in graphs that operations make -/

/-- The checks of a graph tell which of its blocks are well-formed. -/
structure Judged (graph : Graph) : Prop where
  ok_iff : ∀ id block, graph.block? id = some block →
    (check graph id = .ok () ↔ WellFormed graph block)
  /-- What is not well-formed is refused under its own number. -/
  malformed : ∀ id block, graph.block? id = some block → ¬ WellFormed graph block →
    block.id = id ∧ ∃ defect, check graph id = .error (.malformedBlock block defect)
  all_ok_iff : checkAll graph = .ok () ↔
    ∀ id block, graph.block? id = some block → check graph id = .ok ()
  /-- Of several blocks that fail, the one with the lowest number is named. -/
  first_error : ∀ error, checkAll graph = .error error →
    ∃ id block, graph.block? id = some block ∧ check graph id = .error error ∧
      ∀ other, other.toNat < id.toNat → check graph other = .ok ()

/-- In every graph that operations make, refused ones among them, the checks tell which
blocks are well-formed, and never ask for a block that is not there. -/
theorem judged_madeBy (actions : List Action) : Judged (madeBy actions) := by
  have hgraph := coherent_madeBy actions
  have hedges := (balanced_madeBy actions).1
  have hknown : ∀ {id : BlockId} {block : Block}, (madeBy actions).block? id = some block →
      ∀ side, ∀ other ∈ block.neighbours side, ((madeBy actions).block? other).isSome := by
    intro id block hblock side other hother
    rw [← neighbours_of_block? hblock] at hother
    exact hedges.isSome_of_mem hother
  constructor
  · intro id block hblock
    exact (check_decides hblock (hknown hblock)).2
  · intro id block hblock hform
    obtain ⟨hanswer, hiff⟩ := check_decides hblock (hknown hblock)
    exact ⟨(hgraph.sound id block hblock).id_eq, hanswer.resolve_left (hform ∘ hiff.mp)⟩
  · exact checkAll_eq_ok_iff hgraph
  · exact fun _ => exists_of_checkAll_eq_error hgraph

end ClassLang.Graph
