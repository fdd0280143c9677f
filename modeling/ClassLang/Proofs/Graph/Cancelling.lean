/-
# Adding an edge and removing it

A new edge is recorded last at both of its ends, and the edge that is removed is the one
recorded first. If there was such an edge before, the one that is removed is not the one
that was added, and the two ends need not agree on which it is. Still the two operations
cancel: successors come back in their order, since a block has so few of them, and of the
predecessors only the order can be another one. That order decides nothing but how a
malformed block is shown, and which of several predecessors at a wrong depth is named.
-/

import ClassLang.Proofs.Graph.Refusals

namespace ClassLang.Graph

open ClassLang.Code

variable {graph before after : Graph} {source target : BlockId} {old new : Block}

/-! ## The same graph with predecessors in another order -/

/-- The same block, but for the order of its predecessors and for what it remembers. -/
structure Block.Rearranged (old new : Block) : Prop where
  preds : new.preds.Perm old.preds
  rest : new = { old with preds := new.preds, order := new.order }

/-- A predecessor whose loop depth differs too much. -/
structure IsFar (graph : Graph) (block : Block) (id : BlockId) (gap : Nat) : Prop where
  mem : id ∈ block.preds
  gap_eq : (loopDepth? graph id).map (depthDistance · block.loopDepth) = some gap
  one_lt : 1 < gap

/-- The checks of a block in two graphs say the same. A malformed block is shown as it is in
its own graph, and only where that lists its predecessors in another order can another
predecessor be named that is too far away. -/
inductive SameVerdict (before after : Graph) (id : BlockId) :
    Except GraphError Unit → Except GraphError Unit → Prop
  | passed : SameVerdict before after id (.ok ()) (.ok ())
  | unknown (other : BlockId) :
      SameVerdict before after id (.error (.unknownBlock other)) (.error (.unknownBlock other))
  | malformed {old new : Block} (hold : before.block? id = some old)
      (hnew : after.block? id = some new) (defect : BlockDefect) :
      SameVerdict before after id (.error (.malformedBlock old defect))
        (.error (.malformedBlock new defect))
  | far {old new : Block} (hold : before.block? id = some old)
      (hnew : after.block? id = some new) (hlisted : new.preds ≠ old.preds)
      {first second : BlockId} {gap other : Nat} (hfirst : IsFar before old first gap)
      (hsecond : IsFar before old second other) :
      SameVerdict before after id (.error (.malformedBlock old (.depthGap .pred first gap)))
        (.error (.malformedBlock new (.depthGap .pred second other)))

/-- Every block is still there, but for the order of predecessors. -/
def Rearranged (before after : Graph) : Prop :=
  ∀ id, Option.Rel Block.Rearranged (before.block? id) (after.block? id)

/-! ## Orders and code -/

section Rearranged

variable (hsame : Rearranged before after)

include hsame

theorem Rearranged.none_or_some (id : BlockId) :
    (before.block? id = none ∧ after.block? id = none) ∨
      ∃ old new, before.block? id = some old ∧ after.block? id = some new ∧ old.Rearranged new := by
  have hid := hsame id
  generalize before.block? id = found, after.block? id = again at hid
  cases hid with
  | none => exact .inl ⟨rfl, rfl⟩
  | some hblock => exact .inr ⟨_, _, rfl, rfl, hblock⟩

/-- What reads neither predecessors nor memos is computed alike. -/
theorem Rearranged.map_block? {α : Type} {read : Block → α}
    (hread : ∀ (block : Block) (preds : List BlockId) (order : Option (List BlockId)),
      read { block with preds := preds, order := order } = read block) (id : BlockId) :
    (after.block? id).map read = (before.block? id).map read := by
  rcases hsame.none_or_some id with ⟨hold, hnew⟩ | ⟨old, new, hold, hnew, hblock⟩
  · rw [hold, hnew]
  · rw [hold, hnew, Option.map_some, Option.map_some, hblock.rest, hread]

theorem Rearranged.orderFrom (entry : BlockId) :
    Graph.orderFrom after entry = Graph.orderFrom before entry :=
  orderFrom_congr (hsame.map_block? fun _ _ _ => rfl) entry

theorem Rearranged.linearize (hbefore : Coherent before) (hafter : Coherent after)
    (entry : BlockId) : (Graph.linearize after entry).1 = (Graph.linearize before entry).1 := by
  rcases hsame.none_or_some entry with ⟨hold, hnew⟩ | ⟨old, new, hold, hnew, hblock⟩
  · simp only [Graph.linearize, hold, hnew]
  · by_cases hpreds : old.preds = []
    · have hnone : new.preds = [] := by rw [← List.perm_nil, ← hpreds]; exact hblock.preds
      obtain ⟨_, hfirst, _⟩ := linearize_eq_ok hbefore hold hpreds
      obtain ⟨_, hsecond, _⟩ := linearize_eq_ok hafter hnew hnone
      rw [hfirst, hsecond, hsame.orderFrom]
    · have hsome : new.preds ≠ [] := fun hnone =>
        hpreds (List.nil_perm.mp (hnone ▸ hblock.preds))
      simp only [Graph.linearize, hold, hnew, ne_eq, hpreds, hsome, not_false_eq_true, if_true,
        hblock.preds.length_eq]

theorem Rearranged.emitBlocks (ids : List BlockId) :
    Graph.emitBlocks after ids = Graph.emitBlocks before ids := by
  induction ids with
  | nil => rfl
  | cons id ids ih =>
      rw [Graph.emitBlocks, Graph.emitBlocks, ih]
      rcases hsame.none_or_some id with ⟨hold, hnew⟩ | ⟨old, new, hold, hnew, hblock⟩
      · rw [hold, hnew]
      · rw [hold, hnew, hblock.rest]
        rfl

theorem Rearranged.emit (hbefore : Coherent before) (hafter : Coherent after) (entry : BlockId) :
    (Graph.emit after entry).1 = (Graph.emit before entry).1 := by
  rw [emit_fst, emit_fst, hsame.linearize hbefore hafter, funext hsame.emitBlocks]

end Rearranged

/-! ## Checks -/

/-- The examination of neighbours reads nothing of a graph but loop depths. -/
theorem checkDepths_congr (hdepths : ∀ id, loopDepth? after id = loopDepth? before id)
    (block : Block) (side : Side) (changes : Nat) (ids : List BlockId) :
    checkDepths after block side changes ids = checkDepths before block side changes ids := by
  induction ids generalizing changes with
  | nil => rfl
  | cons id ids ih => simp only [checkDepths, hdepths, ih]

section Depths

variable {block : Block} {side : Side} {ids : List BlockId}

/-- Where no neighbour is too far away, those at another depth are counted. -/
theorem checkDepths_of_near (hnear : ∀ id ∈ ids, IsNear graph block id) (changes : Nat) :
    checkDepths graph block side changes ids =
      let count := changes + ids.countP fun id => loopDepth? graph id ≠ some block.loopDepth
      if 1 < count then .error (.malformedBlock block (.depthChanges side count)) else .ok () := by
  induction ids generalizing changes with
  | nil => rfl
  | cons id ids ih =>
      rw [List.forall_mem_cons] at hnear
      obtain ⟨other, hother, hclose⟩ := hnear.1
      rw [← depthDistance_le_one_iff] at hclose
      have hstep : depthDistance other.loopDepth block.loopDepth =
          if loopDepth? graph id ≠ some block.loopDepth then 1 else 0 := by
        simp [depthDistance_eq_ite hclose, loopDepth?, hother]
      rw [checkDepths_cons hother]
      dsimp only
      rw [if_neg (Nat.not_lt.mpr hclose), ih hnear.2, hstep, List.countP_cons, Nat.add_assoc,
        Nat.add_comm (ids.countP _)]
      simp only [decide_eq_true_eq]

/-- Where some neighbour is too far away, such a neighbour is named. -/
theorem checkDepths_of_far (hknown : ∀ id ∈ ids, (graph.block? id).isSome)
    (hfar : ∃ id ∈ ids, ¬ IsNear graph block id) (changes : Nat) :
    ∃ id ∈ ids, ∃ gap,
      (loopDepth? graph id).map (depthDistance · block.loopDepth) = some gap ∧ 1 < gap ∧
      checkDepths graph block side changes ids =
        .error (.malformedBlock block (.depthGap side id gap)) := by
  induction ids generalizing changes with
  | nil => simp at hfar
  | cons id ids ih =>
      rw [List.forall_mem_cons] at hknown
      obtain ⟨other, hother⟩ := Option.isSome_iff_exists.mp hknown.1
      rw [checkDepths_cons hother]
      dsimp only
      split
      next hgap =>
        refine ⟨id, List.mem_cons_self, _, ?_, hgap, rfl⟩
        rw [loopDepth?, hother]
        rfl
      next hclose =>
        have hnear : IsNear graph block id :=
          ⟨other, hother, depthDistance_le_one_iff.mp (Nat.le_of_not_lt hclose)⟩
        have hrest : ∃ id ∈ ids, ¬ IsNear graph block id := by simpa [hnear] using hfar
        obtain ⟨found, hfound, hgap⟩ := ih hknown.2 hrest _
        exact ⟨found, List.mem_cons_of_mem _ hfound, hgap⟩

end Depths

section Check

variable {id : BlockId} (hold : before.block? id = some old) (hnew : after.block? id = some new)
  (hblock : old.Rearranged new)

include hold hnew hblock

/-- Neighbours in the same order are judged the same. -/
theorem sameVerdict_checkDepths (side : Side) (changes : Nat) (ids : List BlockId) :
    SameVerdict before after id (checkDepths before old side changes ids)
      (checkDepths before new side changes ids) := by
  have hdepth : new.loopDepth = old.loopDepth := by rw [hblock.rest]
  induction ids generalizing changes with
  | nil =>
      rw [checkDepths, checkDepths]
      split
      · exact .malformed hold hnew _
      · exact .passed
  | cons other ids ih =>
      rw [checkDepths, checkDepths]
      cases loopDepth? before other with
      | none => exact .unknown other
      | some depth =>
          dsimp only
          rw [hdepth]
          split
          · exact .malformed hold hnew _
          · exact ih _

/-- Predecessors in another order are judged the same, but that another one may be named
as too far away. -/
theorem sameVerdict_checkDepths_preds (hknown : ∀ other ∈ old.preds, (before.block? other).isSome) :
    SameVerdict before after id (checkDepths before old .pred 0 old.preds)
      (checkDepths before new .pred 0 new.preds) := by
  by_cases hlisted : new.preds = old.preds
  · rw [hlisted]
    exact sameVerdict_checkDepths hold hnew hblock .pred 0 old.preds
  have hdepth : new.loopDepth = old.loopDepth := by rw [hblock.rest]
  have hiff : ∀ other, IsNear before new other ↔ IsNear before old other := by
    intro other
    rw [IsNear, IsNear, hdepth]
  have hmem : ∀ {other}, other ∈ new.preds ↔ other ∈ old.preds := hblock.preds.mem_iff
  -- the examination stops at the first predecessor that is too far away, if there is one
  by_cases hnear : ∀ other ∈ old.preds, IsNear before old other
  · have hnear' : ∀ other ∈ new.preds, IsNear before new other := fun other hother =>
      (hiff other).mpr (hnear other (hmem.mp hother))
    rw [checkDepths_of_near hnear, checkDepths_of_near hnear', hdepth, hblock.preds.countP_eq]
    dsimp only
    split
    · exact .malformed hold hnew _
    · exact .passed
  · have hfar : ∃ other ∈ old.preds, ¬ IsNear before old other := by simpa using hnear
    have hfar' : ∃ other ∈ new.preds, ¬ IsNear before new other := by
      simpa only [hmem, hiff] using hfar
    have hknown' : ∀ other ∈ new.preds, (before.block? other).isSome := fun other hother =>
      hknown other (hmem.mp hother)
    obtain ⟨first, hfirst, gap, hgap, hlt, herror⟩ := checkDepths_of_far hknown hfar 0
    obtain ⟨second, hsecond, other, hother, hlt', herror'⟩ := checkDepths_of_far hknown' hfar' 0
    rw [hdepth] at hother
    rw [herror, herror']
    exact .far hold hnew hlisted ⟨hfirst, hgap, hlt⟩ ⟨hmem.mp hsecond, hother, hlt'⟩

end Check

/-- The second half of a check only runs when the first half has passed. -/
theorem SameVerdict.bind {id : BlockId} {answer again : Except GraphError Unit}
    {next more : Unit → Except GraphError Unit} (hfirst : SameVerdict before after id answer again)
    (hnext : SameVerdict before after id (next ()) (more ())) :
    SameVerdict before after id (answer.bind next) (again.bind more) := by
  cases hfirst with
  | passed => exact hnext
  | unknown other => exact .unknown other
  | malformed hold hnew defect => exact .malformed hold hnew defect
  | far hold hnew hlisted hone htwo => exact .far hold hnew hlisted hone htwo

theorem Rearranged.check (hsame : Rearranged before after) (hedges : EdgesBalanced before)
    (id : BlockId) :
    SameVerdict before after id (Graph.check before id) (Graph.check after id) := by
  have hdepths : ∀ other, loopDepth? after other = loopDepth? before other :=
    hsame.map_block? fun _ _ _ => rfl
  rcases hsame.none_or_some id with ⟨hold, hnew⟩ | ⟨old, new, hold, hnew, hblock⟩
  · rw [Graph.check, Graph.check, hold, hnew]
    exact .unknown id
  · have hexits : new.exitDefect? = old.exitDefect? := by
      rw [hblock.rest]
      rfl
    have hsuccs : new.neighbours .succ = old.neighbours .succ := by
      rw [hblock.rest]
      rfl
    have hknown : ∀ other ∈ old.preds, (before.block? other).isSome := by
      intro other hother
      have hmem : other ∈ before.neighbours .pred id := by
        rw [neighbours_of_block? hold]
        exact hother
      exact hedges.isSome_of_mem hmem
    cases hdefect : old.exitDefect? with
    | some defect =>
        rw [check_of_defect hold hdefect, check_of_defect hnew (hexits.trans hdefect)]
        exact .malformed hold hnew defect
    | none =>
        rw [check_of_exits hold hdefect, check_of_exits hnew (hexits.trans hdefect), hsuccs]
        simp only [checkDepths_congr hdepths]
        exact .bind (sameVerdict_checkDepths_preds hold hnew hblock hknown)
          (sameVerdict_checkDepths hold hnew hblock .succ 0 _)

/-- Where the predecessors are listed in the same order, the texts are the same as well. -/
theorem SameVerdict.message_eq {id : BlockId} {answer again : Except GraphError Unit}
    (hverdict : SameVerdict before after id answer again) (hsame : Rearranged before after)
    (hlisted : after.neighbours .pred id = before.neighbours .pred id) :
    again.mapError GraphError.message = answer.mapError GraphError.message := by
  have hpreds : ∀ {old new : Block}, before.block? id = some old → after.block? id = some new →
      new.preds = old.preds := by
    intro old new hold hnew
    rwa [neighbours_of_block? hold, neighbours_of_block? hnew] at hlisted
  cases hverdict with
  | passed => rfl
  | unknown => rfl
  | @malformed old new hold hnew defect =>
      have hblock := hsame id
      rw [hold, hnew] at hblock
      cases hblock with
      | some hblock =>
          rw [hblock.rest, hpreds hold hnew]
          rfl
  | far hold hnew hother => exact absurd (hpreds hold hnew) hother

/-! ## The two operations -/

/-- So few successors are in the same order when the new one, or one like it, is taken away
again. -/
theorem erase_concat_of_length_lt {succs : List BlockId} (hroom : succs.length < Block.maxSuccs)
    (target : BlockId) : (succs ++ [target]).erase target = succs := by
  match succs, hroom with
  | [], _ => simp
  | [only], _ => by_cases htarget : only = target <;> simp [htarget]

theorem perm_erase_concat (preds : List BlockId) (source : BlockId) :
    ((preds ++ [source]).erase source).Perm preds := by
  have hperm := (List.perm_append_singleton source preds).erase source
  rwa [List.erase_cons_head] at hperm

theorem erase_concat_of_not_mem {preds : List BlockId} {source : BlockId}
    (hnew : source ∉ preds) : (preds ++ [source]).erase source = preds := by
  rw [List.erase_append_right _ hnew, List.erase_cons_head, List.append_nil]

theorem block?_changeEnds (changeSuccs changePreds : List BlockId → List BlockId) (id : BlockId) :
    (changeEnds graph source target changeSuccs changePreds).block? id =
      (graph.block? id).map fun block =>
        { block with
          succs := if id = source then changeSuccs block.succs else block.succs
          preds := if id = target then changePreds block.preds else block.preds
          order := none } := by
  rw [changeEnds, block?_modifyBlock, block?_modifyBlock, block?_forgetOrders]
  cases graph.block? id with
  | none => split <;> split <;> rfl
  | some block => split <;> split <;> rfl

theorem addEdge_of_ok (hadded : (graph.addEdge source target).1 = .ok ()) :
    ∃ sourceBlock targetBlock, graph.block? source = some sourceBlock ∧
      graph.block? target = some targetBlock ∧ sourceBlock.succs.length < Block.maxSuccs ∧
      (graph.addEdge source target).2 =
        changeEnds graph source target (· ++ [target]) (· ++ [source]) := by
  unfold addEdge at hadded ⊢
  split at hadded
  · cases hadded
  · cases hadded
  next sourceBlock targetBlock hsource htarget =>
    split at hadded
    · cases hadded
    next hsourceRoom =>
      split at hadded
      · cases hadded
      next htargetRoom =>
        refine ⟨sourceBlock, targetBlock, hsource, htarget, Nat.lt_of_not_le hsourceRoom, ?_⟩
        rw [if_neg hsourceRoom, if_neg htargetRoom]
        rfl

theorem removeEdge_of_mem {sourceBlock targetBlock : Block}
    (hsource : graph.block? source = some sourceBlock)
    (htarget : graph.block? target = some targetBlock) (hsucc : target ∈ sourceBlock.succs)
    (hpred : source ∈ targetBlock.preds) :
    graph.removeEdge source target =
      (.ok (), changeEnds graph source target (·.erase target) (·.erase source)) := by
  simp only [removeEdge, hsource, htarget, hsucc, hpred, and_self, if_true]
  rfl

/-- An edge that has just been added can be removed. What is left has the same successors,
and the predecessors of the target with one of them moved to the end. -/
theorem removeEdge_addEdge (hadded : (graph.addEdge source target).1 = .ok ()) :
    ∃ after, (graph.addEdge source target).2.removeEdge source target = (.ok (), after) ∧
      ∀ id, after.block? id = (graph.block? id).map fun block =>
        { block with
          preds := if id = target then (block.preds ++ [source]).erase source else block.preds
          order := none } := by
  obtain ⟨sourceBlock, targetBlock, hsource, htarget, hroom, hchanged⟩ := addEdge_of_ok hadded
  have hblocks := @block?_changeEnds graph source target (· ++ [target]) (· ++ [source])
  rw [hchanged]
  have hsource' := hblocks source
  have htarget' := hblocks target
  rw [hsource, Option.map_some] at hsource'
  rw [htarget, Option.map_some] at htarget'
  refine ⟨_, removeEdge_of_mem hsource' htarget' (by simp) (by simp), fun id => ?_⟩
  rw [block?_changeEnds, hblocks, Option.map_map]
  cases hblock : graph.block? id with
  | none => rfl
  | some block =>
      simp only [Option.map_some, Function.comp, Option.some.injEq, Block.mk.injEq, and_true,
        true_and]
      have hsuccs : id = source → (block.succs ++ [target]).erase target = block.succs := by
        rintro rfl
        obtain rfl := Option.some.inj (hsource.symm.trans hblock)
        exact erase_concat_of_length_lt hroom target
      constructor
      · by_cases hid : id = target
        · simp only [if_pos hid]
        · simp only [if_neg hid]
      · by_cases hid : id = source
        · simp only [if_pos hid, hsuccs hid]
        · simp only [if_neg hid]

/-- What the two operations leave as it was. -/
structure Restores (source target : BlockId) (before after : Graph) : Prop where
  size : after.size = before.size
  blocks : Rearranged before after
  succs : ∀ id, after.neighbours .succ id = before.neighbours .succ id
  preds : ∀ id, (after.neighbours .pred id).Perm (before.neighbours .pred id)
  /-- Where there was no such edge, predecessors keep their order too. -/
  preds_eq : target ∉ before.neighbours .succ source →
    ∀ id, after.neighbours .pred id = before.neighbours .pred id
  linearize : ∀ id, (linearize after id).1 = (linearize before id).1
  emit : ∀ id, (emit after id).1 = (emit before id).1
  check : ∀ id, SameVerdict before after id (check before id) (check after id)
  texts : target ∉ before.neighbours .succ source → ∀ id,
    (Graph.check after id).mapError GraphError.message =
      (Graph.check before id).mapError GraphError.message

theorem Rearranged.succs_eq (hsame : Rearranged before after) (id : BlockId) :
    after.neighbours .succ id = before.neighbours .succ id := by
  rcases hsame.none_or_some id with ⟨hold, hnew⟩ | ⟨old, new, hold, hnew, hblock⟩
  · rw [neighbours, neighbours, hold, hnew]
  · rw [neighbours_of_block? hold, neighbours_of_block? hnew, hblock.rest]
    rfl

theorem Rearranged.preds_perm (hsame : Rearranged before after) (id : BlockId) :
    (after.neighbours .pred id).Perm (before.neighbours .pred id) := by
  rcases hsame.none_or_some id with ⟨hold, hnew⟩ | ⟨old, new, hold, hnew, hblock⟩
  · rw [neighbours, neighbours, hold, hnew]
  · rw [neighbours_of_block? hold, neighbours_of_block? hnew]
    exact hblock.preds

/-- In every graph that operations make, refused ones among them: an edge that can be added
can be removed again right after, and then everything is as it was, but that predecessors
may be listed in another order. -/
theorem removeEdge_addEdge_restores (actions : List Action) (source target : BlockId)
    (hadded : ((madeBy actions).addEdge source target).1 = .ok ()) :
    ∃ after, ((madeBy actions).addEdge source target).2.removeEdge source target =
        (.ok (), after) ∧ Restores source target (madeBy actions) after := by
  obtain ⟨after, hremoved, hblocks⟩ := removeEdge_addEdge hadded
  have hbefore := coherent_madeBy actions
  have hedges := (balanced_madeBy actions).1
  generalize madeBy actions = before at *
  have hafter : Coherent after := by
    have hcoherent := coherent_removeEdge (coherent_addEdge hbefore source target) source target
    rwa [hremoved] at hcoherent
  have hsame : Rearranged before after := by
    intro id
    rw [hblocks]
    cases before.block? id with
    | none => exact .none
    | some block =>
        refine .some ⟨?_, rfl⟩
        dsimp only
        split
        · exact perm_erase_concat block.preds source
        · exact List.Perm.refl _
  have hlisted : target ∉ before.neighbours .succ source →
      ∀ id, after.neighbours .pred id = before.neighbours .pred id := by
    intro hnone id
    -- both ends record an edge equally often
    have hpreds : source ∉ before.neighbours .pred target := by
      rwa [← List.count_eq_zero, ← hedges.mirrored, List.count_eq_zero]
    rw [neighbours, hblocks, neighbours]
    cases hblock : before.block? id with
    | none => rfl
    | some block =>
        by_cases hid : id = target
        · subst hid
          rw [neighbours_of_block? hblock] at hpreds
          simpa [Block.neighbours] using erase_concat_of_not_mem hpreds
        · simp [Block.neighbours, hid]
  refine ⟨after, hremoved, ?_, hsame, hsame.succs_eq, hsame.preds_perm, hlisted,
    hsame.linearize hbefore hafter, hsame.emit hbefore hafter, hsame.check hedges, ?_⟩
  · have hsize := @size_perform (before.addEdge source target).2 (.removeEdge source target)
    rw [Action.perform, hremoved] at hsize
    exact hsize.trans (size_perform (.addEdge source target))
  · intro hnone id
    exact (hsame.check hedges id).message_eq hsame (hlisted hnone id)

/-- Two predecessors of a block are too deep in loops, and from the first of them there is
another edge to be added. -/
def crossedActions : List Action :=
  let first := .ofNat 0
  let second := .ofNat 1
  let block := .ofNat 2
  [.newBlock 1, .newBlock 2, .newBlock 3, .editBlock first (.loopDepth 2),
    .editBlock second (.loopDepth 3), .addEdge first block, .addEdge second block,
    .addEdge block first]

theorem restores_crossedActions :
    ((madeBy crossedActions).addEdge (.ofNat 0) (.ofNat 2)).1 = .ok () ∧
      (madeBy crossedActions).neighbours .pred (.ofNat 2) = [.ofNat 0, .ofNat 1] ∧
      (((madeBy crossedActions).addEdge (.ofNat 0) (.ofNat 2)).2.removeEdge (.ofNat 0)
        (.ofNat 2)).2.neighbours .pred (.ofNat 2) = [.ofNat 1, .ofNat 0] ∧
      ∃ after, ((madeBy crossedActions).addEdge (.ofNat 0) (.ofNat 2)).2.removeEdge (.ofNat 0)
          (.ofNat 2) = (.ok (), after) ∧
        Restores (.ofNat 0) (.ofNat 2) (madeBy crossedActions) after :=
  ⟨by decide, by decide, by decide, removeEdge_addEdge_restores crossedActions (.ofNat 0) (.ofNat 2)
    (by decide)⟩

end ClassLang.Graph
