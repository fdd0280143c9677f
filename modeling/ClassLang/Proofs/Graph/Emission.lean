/-
# Linear code runs like its graph

Blocks are written one after the other, and a jump is left out exactly where the
block that control goes on to comes next. So that nothing is lost, every block
that control can go on to must be written somewhere, once, and the way in which
a block ends must agree with its edges. A layout gathers these facts, and from
them follows a simulation: apart from jumps, which show nothing, linear code takes
the same steps as the graph.
-/

import Mathlib.Data.List.Chain
import Mathlib.Data.List.Nodup
import ClassLang.Proofs.Graph.Execution
import ClassLang.Proofs.Graph.Structure

namespace ClassLang.Graph

open ClassLang.Code

variable {graph : Graph} {order : List BlockId}

/-! ## Layouts -/

/-- What an order must be to write a graph out in it: no block comes twice, every
block is there and ends as its edges say, and edges do not leave the order. -/
structure Layout (graph : Graph) (order : List BlockId) : Prop where
  nodup : order.Nodup
  sound : Sound graph
  known : ∀ id ∈ order, ∃ block, graph.block? id = some block ∧ block.exitDefect? = none
  closed : ∀ id ∈ order, ∀ target, Edge graph id target → target ∈ order

/-- A block that passes the check ends as its edges say. -/
theorem exitDefect?_eq_none_of_check {id : BlockId} (hcheck : check graph id = .ok ()) :
    ∃ block, graph.block? id = some block ∧ block.exitDefect? = none := by
  unfold check at hcheck
  split at hcheck
  · cases hcheck
  next block hblock =>
    split at hcheck
    · cases hcheck
    next hexit => exact ⟨block, hblock, hexit⟩

/-- The order from an entry is a layout if all that can be reached passes the
check. -/
theorem layout_orderFrom {entry : BlockId} (hgraph : Coherent graph)
    (hentry : (graph.block? entry).isSome)
    (hcheck : ∀ id, Reaches graph entry id → check graph id = .ok ()) :
    Layout graph (orderFrom graph entry) where
  nodup := nodup_orderFrom entry
  sound := hgraph.sound
  known id hid := by
    rw [mem_orderFrom_iff hgraph.edgesKnown hentry] at hid
    exact exitDefect?_eq_none_of_check (hcheck id hid)
  closed id hid target hedge := by
    rw [mem_orderFrom_iff hgraph.edgesKnown hentry] at hid ⊢
    exact hid.tail hedge

/-- Both targets of the branch that ends a block are among its successors. -/
theorem Block.mem_succs_of_branch {block : Block} {op : Comparison} {left right : String}
    {onTrue onFalse : BlockId} (hexit : block.exitDefect? = none)
    (hlast : block.last? = some (.branch op left right onTrue onFalse)) :
    onTrue ∈ block.succs ∧ onFalse ∈ block.succs := by
  cases Block.exitDefect?_eq_none_iff.mp hexit with
  | empty hempty =>
      rw [last?_eq_none_iff.mpr hempty] at hlast
      cases hlast
  | branch hbranch htargets =>
      obtain ⟨⟩ := hbranch.symm.trans hlast
      exact ⟨htargets.mem_iff.mpr (by simp), htargets.mem_iff.mpr (by simp)⟩
  | ret hret => cases hret.symm.trans hlast
  | plain hplain hbranch =>
      obtain ⟨⟩ := hplain.symm.trans hlast
      cases hbranch

/-- A block whose last instruction neither branches nor returns goes on to its
only successor. -/
theorem Block.succs_eq_of_plain {block : Block} (hexit : block.exitDefect? = none)
    (hplain : ∀ operation, block.last? = some operation →
      operation.isBranch = false ∧ operation.isReturn = false) :
    ∃ next, block.succs = [next] ∧ block.fallThrough? = some next := by
  have hcount : block.succs.length = 1 := by
    cases Block.exitDefect?_eq_none_iff.mp hexit with
    | empty _ hcount => exact hcount
    | branch hlast => exact absurd (hplain _ hlast).1 nofun
    | ret hlast => exact absurd (hplain _ hlast).2 nofun
    | plain _ _ _ hcount => exact hcount
  obtain ⟨next, hnext⟩ := List.length_eq_one_iff.mp hcount
  refine ⟨next, hnext, ?_⟩
  unfold Block.fallThrough?
  split
  next hlast => simpa [Operation.isReturn] using hplain _ hlast
  next hlast => simpa [Operation.isBranch] using hplain _ hlast
  · simp [hnext]

/-- Where control goes on after a block, there is an edge. -/
theorem Block.mem_succs_of_fallThrough {block : Block} {target : BlockId}
    (hexit : block.exitDefect? = none) (htarget : block.fallThrough? = some target) :
    target ∈ block.succs := by
  unfold Block.fallThrough? at htarget
  split at htarget
  · cases htarget
  next hlast =>
    obtain rfl := Option.some.inj htarget
    exact (Block.mem_succs_of_branch hexit hlast).2
  · exact List.mem_of_mem_head? htarget

namespace Layout

theorem exitDefect?_eq_none (hlayout : Layout graph order) {id : BlockId} {block : Block}
    (hid : id ∈ order) (hblock : graph.block? id = some block) : block.exitDefect? = none := by
  obtain ⟨found, hfound, hexit⟩ := hlayout.known id hid
  obtain rfl := Option.some.inj (hblock.symm.trans hfound)
  exact hexit

/-- Where control goes on after a block of the order is in the order. -/
theorem mem_of_fallThrough (hlayout : Layout graph order) {id target : BlockId} {block : Block}
    (hid : id ∈ order) (hblock : graph.block? id = some block)
    (htarget : block.fallThrough? = some target) : target ∈ order := by
  have hexit := hlayout.exitDefect?_eq_none hid hblock
  exact hlayout.closed id hid target
    ⟨block, hblock, Block.mem_succs_of_fallThrough hexit htarget⟩

/-- A branch is the last instruction of its block, and both its targets are in
the order. -/
theorem branch_last (hlayout : Layout graph order) {id : BlockId} {block : Block}
    (hid : id ∈ order) (hblock : graph.block? id = some block)
    {before after : List Instruction} {code : Instruction}
    (hcode : block.instructions = before ++ code :: after) {op : Comparison}
    {left right : String} {onTrue onFalse : BlockId}
    (hbranch : code.operation = .branch op left right onTrue onFalse) :
    after = [] ∧ block.fallThrough? = some onFalse ∧ onTrue ∈ order ∧ onFalse ∈ order := by
  have hsound := hlayout.sound id block hblock
  have hafter : after = [] := by
    by_contra hne
    have hmem : code ∈ block.instructions.dropLast := by
      rw [hcode, List.dropLast_append_of_ne_nil (List.cons_ne_nil _ _),
        List.dropLast_cons_of_ne_nil hne]
      simp
    simpa [hbranch, Operation.isBranch] using hsound.branch_last code hmem
  have hlast : block.last? = some (.branch op left right onTrue onFalse) := by
    simp [Block.last?, hcode, hafter, hbranch]
  have hsuccs := Block.mem_succs_of_branch (hlayout.exitDefect?_eq_none hid hblock) hlast
  refine ⟨hafter, by simp [Block.fallThrough?, hlast], ?_, ?_⟩
  · exact hlayout.closed id hid onTrue ⟨block, hblock, hsuccs.1⟩
  · exact hlayout.closed id hid onFalse ⟨block, hblock, hsuccs.2⟩

end Layout

/-! ## Labels and jumps -/

/-- The blocks that an item makes control go to, if it does not go on. -/
def StreamItem.targets : StreamItem → List BlockId
  | label _ => []
  | jump target => [target]
  | instruction code =>
    match code.operation with
    | .branch _ _ _ onTrue onFalse => [onTrue, onFalse]
    | _ => []

theorem StreamItem.mem_targets_instruction {code : Instruction} {target : BlockId} :
    target ∈ (StreamItem.instruction code).targets ↔
      ∃ op left right onTrue onFalse, code.operation = .branch op left right onTrue onFalse ∧
        (target = onTrue ∨ target = onFalse) := by
  obtain ⟨operation, comments⟩ := code
  cases operation <;> simp [targets]

/-- The items of a block behind its label. -/
def Block.body (block : Block) (next : Option BlockId) : List StreamItem :=
  block.instructions.map .instruction ++ block.jumpUnless next

theorem Block.mem_jumpUnless {block : Block} {next : Option BlockId} {item : StreamItem} :
    item ∈ block.jumpUnless next ↔
      ∃ target, item = .jump target ∧ block.fallThrough? = some target ∧ next ≠ some target := by
  unfold Block.jumpUnless
  split
  next target htarget =>
    split
    next hnext => simp [htarget, hnext]
    next hnext =>
      rw [List.mem_singleton]
      constructor
      · rintro rfl
        exact ⟨target, rfl, htarget, hnext⟩
      · rintro ⟨other, rfl, hother, _⟩
        rw [Option.some.inj (htarget.symm.trans hother)]
  next hnone => simp [hnone]

/-- Behind its label a block has no labels. -/
theorem Block.label_not_mem_body {block : Block} {next : Option BlockId} (id : BlockId) :
    StreamItem.label id ∉ block.body next := by
  simp [Block.body, Block.mem_jumpUnless]

theorem emitBlocks_cons (hsound : Sound graph) {id : BlockId} {block : Block}
    (hblock : graph.block? id = some block) (ids : List BlockId) :
    emitBlocks graph (id :: ids) =
      .label id :: (block.body ids.head? ++ emitBlocks graph ids) := by
  rw [emitBlocks, hblock]
  simp [Block.items, Block.body, (hsound id block hblock).id_eq]

theorem emitBlocks_cons_of_none {id : BlockId} (hblock : graph.block? id = none)
    (ids : List BlockId) : emitBlocks graph (id :: ids) = emitBlocks graph ids := by
  rw [emitBlocks, hblock]

/-- Searching for the label of a block finds the code from that block onwards, if
the blocks written before it are others. -/
theorem dropWhile_label_emitBlocks (hsound : Sound graph) {before : List BlockId}
    {id : BlockId} (hfresh : id ∉ before) (hid : (graph.block? id).isSome)
    (after : List BlockId) :
    (emitBlocks graph (before ++ id :: after)).dropWhile (· ≠ .label id) =
      emitBlocks graph (id :: after) := by
  induction before with
  | nil =>
      obtain ⟨block, hblock⟩ := Option.isSome_iff_exists.mp hid
      rw [List.nil_append, emitBlocks_cons hsound hblock, List.dropWhile_cons_of_neg (by simp)]
  | cons other before ih =>
      rw [List.mem_cons, not_or] at hfresh
      rw [List.cons_append]
      cases hother : graph.block? other with
      | none => rw [emitBlocks_cons_of_none hother, ih hfresh.2]
      | some block =>
          have hbody : ∀ next, ∀ item ∈ block.body next, decide (item ≠ .label id) = true := by
            intro next item hitem
            rw [decide_eq_true_iff]
            rintro rfl
            exact Block.label_not_mem_body id hitem
          rw [emitBlocks_cons hsound hother,
            List.dropWhile_cons_of_pos (by simp [Ne.symm hfresh.1]),
            List.dropWhile_append_of_pos (hbody _), ih hfresh.2]

/-- A block has as many labels as it has places in the order. -/
theorem count_label_emitBlocks (hsound : Sound graph) {id : BlockId}
    (hid : (graph.block? id).isSome) (ids : List BlockId) :
    (emitBlocks graph ids).count (.label id) = ids.count id := by
  induction ids with
  | nil => rfl
  | cons other ids ih =>
      cases hother : graph.block? other with
      | none =>
          have hne : other ≠ id := by
            rintro rfl
            simp [hother] at hid
          rw [emitBlocks_cons_of_none hother, ih, List.count_cons_of_ne hne]
      | some block =>
          rw [emitBlocks_cons hsound hother, List.count_cons, List.count_append, ih,
            List.count_eq_zero_of_not_mem (Block.label_not_mem_body id), List.count_cons]
          simp

/-- Every item of linear code is the label of a block of the order or stands behind
it. -/
theorem mem_emitBlocks (hsound : Sound graph) {ids : List BlockId} {item : StreamItem}
    (hitem : item ∈ emitBlocks graph ids) :
    ∃ id ∈ ids, item = .label id ∨
      ∃ block next, graph.block? id = some block ∧ item ∈ block.body next := by
  induction ids with
  | nil => simp [emitBlocks] at hitem
  | cons id ids ih =>
      cases hblock : graph.block? id with
      | none =>
          rw [emitBlocks_cons_of_none hblock] at hitem
          obtain ⟨other, hother, hrest⟩ := ih hitem
          exact ⟨other, List.mem_cons_of_mem _ hother, hrest⟩
      | some block =>
          rw [emitBlocks_cons hsound hblock, List.mem_cons, List.mem_append] at hitem
          rcases hitem with hlabel | hbody | hitem
          · exact ⟨id, List.mem_cons_self, Or.inl hlabel⟩
          · exact ⟨id, List.mem_cons_self, Or.inr ⟨block, ids.head?, hblock, hbody⟩⟩
          · obtain ⟨other, hother, hrest⟩ := ih hitem
            exact ⟨other, List.mem_cons_of_mem _ hother, hrest⟩

theorem head?_emitBlocks (hsound : Sound graph) {ids : List BlockId}
    (hknown : ∀ id ∈ ids, (graph.block? id).isSome) :
    (emitBlocks graph ids).head? = ids.head?.map .label := by
  cases ids with
  | nil => rfl
  | cons id ids =>
      obtain ⟨block, hblock⟩ := Option.isSome_iff_exists.mp (hknown id List.mem_cons_self)
      rw [emitBlocks_cons hsound hblock]
      rfl

/-- A jump is never followed by the label that it goes to: it is only written where
another block comes next. -/
theorem isChain_emitBlocks (hsound : Sound graph) {ids : List BlockId}
    (hknown : ∀ id ∈ ids, (graph.block? id).isSome) :
    (emitBlocks graph ids).IsChain fun item next =>
      ∀ target, item = .jump target → next ≠ .label target := by
  induction ids with
  | nil => exact .nil
  | cons id ids ih =>
      obtain ⟨block, hblock⟩ := Option.isSome_iff_exists.mp (hknown id List.mem_cons_self)
      have hids : ∀ other ∈ ids, (graph.block? other).isSome :=
        fun other hother => hknown other (List.mem_cons_of_mem _ hother)
      rw [emitBlocks_cons hsound hblock, ← List.cons_append, List.isChain_append]
      refine ⟨?_, ih hids, ?_⟩
      -- within a block there is no label but the first item
      · refine List.Pairwise.isChain (List.pairwise_cons.mpr ⟨?_, ?_⟩)
        · simp
        · apply List.pairwise_of_forall_mem_list
          rintro _ _ _ hnext target _ rfl
          exact Block.label_not_mem_body target hnext
      -- between blocks a jump goes to another block than the next
      · rintro last hlast first hfirst target rfl rfl
        rw [Option.mem_def, head?_emitBlocks hsound hids] at hfirst
        have hbody : .jump target ∈ block.body ids.head? := by
          simpa using List.mem_of_mem_getLast? hlast
        simp only [Block.body, List.mem_append, List.mem_map, reduceCtorEq, and_false,
          exists_false, false_or, Block.mem_jumpUnless, StreamItem.jump.injEq] at hbody
        obtain ⟨_, rfl, _, hnext⟩ := hbody
        apply hnext
        simpa using hfirst

/-! ## The simulation -/

/-- How control in linear code and control in its graph belong together. Before a
jump, control counts as being where the jump goes. -/
inductive Matches (graph : Graph) (order : List BlockId) :
    Control StreamPoint → Control GraphPoint → Prop
  | label {id : BlockId} (hid : id ∈ order) :
      Matches graph order (seek (emitBlocks graph order) id) (.here (.entering id))
  | jump {id : BlockId} (rest : List StreamItem) (hid : id ∈ order) :
      Matches graph order (.here ⟨.jump id, rest⟩) (.here (.entering id))
  | code {before after : List BlockId} {id : BlockId} {block : Block}
      {done rest : List Instruction} {code : Instruction}
      (horder : order = before ++ id :: after) (hblock : graph.block? id = some block)
      (hcode : block.instructions = done ++ code :: rest) :
      Matches graph order
        (.here ⟨.instruction code, rest.map .instruction ++ block.jumpUnless after.head? ++
          emitBlocks graph after⟩)
        (.here (.inside block code rest))
  | halted : Matches graph order .halted .halted

/-- The two runs have shown the same and their controls belong together. -/
structure Simulates (graph : Graph) (order : List BlockId) (stream : Run StreamPoint)
    (run : Run GraphPoint) : Prop where
  seen_eq : stream.seen = run.seen
  control : Matches graph order stream.control run.control

/-- Linear code is about to jump. -/
def AtJump (stream : Run StreamPoint) : Prop :=
  ∃ target rest, stream.control = .here ⟨.jump target, rest⟩

namespace Layout

variable (hlayout : Layout graph order)

include hlayout

/-- The code from a block of the order onwards is where its label is found. -/
theorem resumeStream_eq_seek {before after : List BlockId} {id : BlockId}
    (horder : order = before ++ id :: after) :
    resumeStream (emitBlocks graph (id :: after)) = seek (emitBlocks graph order) id := by
  have hnodup := hlayout.nodup
  rw [horder] at hnodup
  have hfresh : id ∉ before :=
    fun hid => (List.nodup_append.mp hnodup).2.2 id hid id List.mem_cons_self rfl
  obtain ⟨block, hblock, _⟩ := hlayout.known id (by simp [horder])
  have hdrop := dropWhile_label_emitBlocks hlayout.sound hfresh (by simp [hblock]) after
  rw [seek, horder, hdrop]

theorem seek_eq {before after : List BlockId} {id : BlockId} {block : Block}
    (horder : order = before ++ id :: after) (hblock : graph.block? id = some block) :
    seek (emitBlocks graph order) id =
      .here ⟨.label id, block.body after.head? ++ emitBlocks graph after⟩ := by
  rw [← hlayout.resumeStream_eq_seek horder, emitBlocks_cons hlayout.sound hblock]
  rfl

/-- Behind the instructions of a block, the code leads to where control goes on:
by a jump, or because that block comes next. -/
theorem matches_fallThrough {before after : List BlockId} {id next : BlockId} {block : Block}
    (horder : order = before ++ id :: after) (hblock : graph.block? id = some block)
    (hnext : block.fallThrough? = some next) :
    Matches graph order
      (resumeStream (block.jumpUnless after.head? ++ emitBlocks graph after))
      (.here (.entering next)) := by
  have hmem : next ∈ order := hlayout.mem_of_fallThrough (by simp [horder]) hblock hnext
  simp only [Block.jumpUnless, hnext]
  split
  next hhead =>
    obtain ⟨later, rfl⟩ := List.head?_eq_some_iff.mp hhead
    have hsplit : order = (before ++ [id]) ++ next :: later := by simp [horder]
    rw [List.nil_append, hlayout.resumeStream_eq_seek hsplit]
    exact .label hmem
  next => exact .jump _ hmem

/-- After instructions that neither branch nor return, both controls are before
the instructions that are left, or before the next block if none is. -/
theorem matches_resume {before after : List BlockId} {id : BlockId} {block : Block}
    {done rest : List Instruction} (horder : order = before ++ id :: after)
    (hblock : graph.block? id = some block) (hcode : block.instructions = done ++ rest)
    (hplain : ∀ code ∈ done.getLast?,
      code.operation.isBranch = false ∧ code.operation.isReturn = false) :
    Matches graph order
      (resumeStream (rest.map .instruction ++ block.jumpUnless after.head? ++
        emitBlocks graph after))
      (block.resume rest) := by
  cases rest with
  | cons code rest => exact .code horder hblock hcode
  | nil =>
      have hexit := hlayout.exitDefect?_eq_none (by simp [horder]) hblock
      have hlast : ∀ operation, block.last? = some operation →
          operation.isBranch = false ∧ operation.isReturn = false := by
        intro operation hlast
        rw [Block.last?, hcode, List.append_nil, Option.map_eq_some_iff] at hlast
        obtain ⟨code, hmem, rfl⟩ := hlast
        exact hplain code hmem
      obtain ⟨next, hsuccs, hnext⟩ := Block.succs_eq_of_plain hexit hlast
      rw [Block.resume, hsuccs]
      exact hlayout.matches_fallThrough horder hblock hnext

/-- Entering a block, linear code passes its label. -/
theorem simulates_enter (oracle : Oracle) (seen : List Event) {id : BlockId}
    (hid : id ∈ order) :
    Simulates graph order
      (Run.advance (streamStep (emitBlocks graph order) oracle)
        ⟨seen, seek (emitBlocks graph order) id⟩)
      (Run.advance (graphStep graph oracle) ⟨seen, .here (.entering id)⟩) := by
  obtain ⟨before, after, horder⟩ := List.append_of_mem hid
  obtain ⟨block, hblock, _⟩ := hlayout.known id hid
  rw [hlayout.seek_eq horder hblock]
  simp only [Run.advance, streamStep, graphStep, hblock]
  exact ⟨rfl, hlayout.matches_resume horder hblock (List.nil_append _).symm (by simp)⟩

/-- An instruction is executed alike in linear code and in its block. -/
theorem simulates_execute (oracle : Oracle) (seen : List Event) {before after : List BlockId}
    {id : BlockId} {block : Block} {done rest : List Instruction} {code : Instruction}
    (horder : order = before ++ id :: after) (hblock : graph.block? id = some block)
    (hcode : block.instructions = done ++ code :: rest) :
    Simulates graph order
      (streamStep (emitBlocks graph order) oracle seen ⟨.instruction code,
        rest.map .instruction ++ block.jumpUnless after.head? ++ emitBlocks graph after⟩)
      (graphStep graph oracle seen (.inside block code rest)) := by
  rcases operation_cases code.operation with
    ⟨value, hret⟩ | ⟨op, left, right, onTrue, onFalse, hbranch⟩ | hplain
  · simp only [streamStep, graphStep, hret]
    exact ⟨rfl, .halted⟩
  · obtain ⟨rfl, hfalse, htrue, _⟩ :=
      hlayout.branch_last (by simp [horder]) hblock hcode hbranch
    simp only [streamStep, graphStep, hbranch]
    refine ⟨rfl, ?_⟩
    dsimp only
    split
    · exact .label htrue
    · exact hlayout.matches_fallThrough horder hblock hfalse
  · rw [graphStep_plain hplain, streamStep_plain hplain]
    have hsplit : block.instructions = (done ++ [code]) ++ rest := by simp [hcode]
    refine ⟨rfl, hlayout.matches_resume horder hblock hsplit ?_⟩
    simpa using hplain

/-- Unless linear code jumps, both machines take the same step. -/
theorem simulates_advance (oracle : Oracle) {stream : Run StreamPoint} {run : Run GraphPoint}
    (hsim : Simulates graph order stream run) (hjump : ¬ AtJump stream) :
    Simulates graph order (stream.advance (streamStep (emitBlocks graph order) oracle))
      (run.advance (graphStep graph oracle)) := by
  obtain ⟨seen, streamControl⟩ := stream
  obtain ⟨_, control⟩ := run
  obtain ⟨rfl, hmatch⟩ := hsim
  cases hmatch with
  | label hid => exact hlayout.simulates_enter oracle seen hid
  | jump rest hid => exact absurd ⟨_, rest, rfl⟩ hjump
  | code horder hblock hcode => exact hlayout.simulates_execute oracle seen horder hblock hcode
  | halted => exact ⟨rfl, .halted⟩

/-- A jump shows nothing and leads to a label. -/
theorem simulates_jump (oracle : Oracle) {stream : Run StreamPoint} {run : Run GraphPoint}
    (hsim : Simulates graph order stream run) (hjump : AtJump stream) :
    Simulates graph order (stream.advance (streamStep (emitBlocks graph order) oracle)) run ∧
      ¬ AtJump (stream.advance (streamStep (emitBlocks graph order) oracle)) := by
  obtain ⟨seen, streamControl⟩ := stream
  obtain ⟨_, control⟩ := run
  obtain ⟨rfl, hmatch⟩ := hsim
  have hlabel : ∀ id ∈ order, ¬ AtJump ⟨seen, seek (emitBlocks graph order) id⟩ := by
    rintro id hid ⟨target, rest, hcontrol⟩
    obtain ⟨before, after, horder⟩ := List.append_of_mem hid
    obtain ⟨block, hblock, _⟩ := hlayout.known id hid
    simp [hlayout.seek_eq horder hblock] at hcontrol
  cases hmatch with
  | label hid => exact absurd hjump (hlabel _ hid)
  | jump rest hid => exact ⟨⟨rfl, .label hid⟩, hlabel _ hid⟩
  | code horder hblock hcode =>
      obtain ⟨_, _, hcontrol⟩ := hjump
      simp at hcontrol
  | halted =>
      obtain ⟨_, _, hcontrol⟩ := hjump
      simp at hcontrol

/-- At the start both controls are before the entry. -/
theorem simulates_start (oracle : Oracle) {entry : BlockId} {rest : List BlockId}
    (horder : order = entry :: rest) :
    Simulates graph order (streamRun (emitBlocks graph order) oracle 0)
      (graphRun graph oracle entry 0) := by
  refine ⟨rfl, ?_⟩
  have hstart : resumeStream (emitBlocks graph order) = seek (emitBlocks graph order) entry := by
    have hseek := hlayout.resumeStream_eq_seek (show order = [] ++ entry :: rest from horder)
    rwa [← horder] at hseek
  simp only [streamRun, graphRun, Function.iterate_zero, id_eq, hstart]
  exact .label (by simp [horder])

/-- However far linear code has run, its graph can be run to the same place. -/
theorem exists_graphRun (oracle : Oracle) {entry : BlockId} {rest : List BlockId}
    (horder : order = entry :: rest) (steps : Nat) :
    ∃ others, Simulates graph order (streamRun (emitBlocks graph order) oracle steps)
      (graphRun graph oracle entry others) := by
  induction steps with
  | zero => exact ⟨0, hlayout.simulates_start oracle horder⟩
  | succ steps ih =>
      obtain ⟨others, hsim⟩ := ih
      rw [streamRun, Function.iterate_succ_apply']
      by_cases hjump : AtJump (streamRun (emitBlocks graph order) oracle steps)
      · exact ⟨others, (hlayout.simulates_jump oracle hsim hjump).1⟩
      · refine ⟨others + 1, ?_⟩
        rw [graphRun, Function.iterate_succ_apply']
        exact hlayout.simulates_advance oracle hsim hjump

/-- However far a graph has run, its linear code can be run to the same place. -/
theorem exists_streamRun (oracle : Oracle) {entry : BlockId} {rest : List BlockId}
    (horder : order = entry :: rest) (steps : Nat) :
    ∃ others, Simulates graph order (streamRun (emitBlocks graph order) oracle others)
      (graphRun graph oracle entry steps) := by
  induction steps with
  | zero => exact ⟨0, hlayout.simulates_start oracle horder⟩
  | succ steps ih =>
      obtain ⟨others, hsim⟩ := ih
      rw [graphRun, Function.iterate_succ_apply']
      by_cases hjump : AtJump (streamRun (emitBlocks graph order) oracle others)
      · obtain ⟨hlanded, hlabel⟩ := hlayout.simulates_jump oracle hsim hjump
        refine ⟨others + 2, ?_⟩
        rw [streamRun, Function.iterate_succ_apply', Function.iterate_succ_apply']
        exact hlayout.simulates_advance oracle hlanded hlabel
      · refine ⟨others + 1, ?_⟩
        rw [streamRun, Function.iterate_succ_apply']
        exact hlayout.simulates_advance oracle hsim hjump

/-- Controls that belong together look alike, and neither is lost. -/
theorem blur_eq {stream : Control StreamPoint} {control : Control GraphPoint}
    (hmatch : Matches graph order stream control) :
    stream.blur = control.blur ∧ stream ≠ .lost := by
  cases hmatch with
  | label hid =>
      obtain ⟨before, after, horder⟩ := List.append_of_mem hid
      obtain ⟨block, hblock, _⟩ := hlayout.known _ hid
      rw [hlayout.seek_eq horder hblock]
      exact ⟨rfl, by simp⟩
  | jump rest hid => exact ⟨rfl, by simp⟩
  | code horder hblock hcode => exact ⟨rfl, by simp⟩
  | halted => exact ⟨rfl, by simp⟩

theorem observed_eq {stream : Run StreamPoint} {run : Run GraphPoint}
    (hsim : Simulates graph order stream run) : stream.observed = run.observed := by
  rw [Run.observed, Run.observed, hsim.seen_eq, (hlayout.blur_eq hsim.control).1]

/-- Whatever an item of linear code goes to is in the order. -/
theorem mem_of_mem_targets {item : StreamItem} (hitem : item ∈ emitBlocks graph order)
    {target : BlockId} (htarget : target ∈ item.targets) : target ∈ order := by
  obtain ⟨id, hid, rfl | ⟨block, next, hblock, hbody⟩⟩ := mem_emitBlocks hlayout.sound hitem
  · simp [StreamItem.targets] at htarget
  · rw [Block.body, List.mem_append, List.mem_map, Block.mem_jumpUnless] at hbody
    rcases hbody with ⟨code, hcode, rfl⟩ | ⟨other, rfl, hother, _⟩
    · obtain ⟨before, after, hsplit⟩ := List.append_of_mem hcode
      obtain ⟨op, left, right, onTrue, onFalse, hbranch, htarget⟩ :=
        StreamItem.mem_targets_instruction.mp htarget
      obtain ⟨_, _, htrue, hfalse⟩ := hlayout.branch_last hid hblock hsplit hbranch
      rcases htarget with rfl | rfl
      · exact htrue
      · exact hfalse
    · simp only [StreamItem.targets, List.mem_singleton] at htarget
      exact htarget ▸ hlayout.mem_of_fallThrough hid hblock hother

end Layout

/-! ## Code that a graph is written out to -/

/-- Linear code does what a graph does from an entry: whatever the oracle says, the
two runs show the same at every length. The code never runs off its end, has one
label for everything that it goes to, and no jump to what comes next anyway. -/
structure RunsLike (items : List StreamItem) (graph : Graph) (entry : BlockId) : Prop where
  observed_iff : ∀ (oracle : Oracle) (view : Run Unit),
    (∃ steps, (streamRun items oracle steps).observed = view) ↔
      ∃ steps, (graphRun graph oracle entry steps).observed = view
  not_lost : ∀ (oracle : Oracle) (steps : Nat), (streamRun items oracle steps).control ≠ .lost
  count_label : ∀ item ∈ items, ∀ target ∈ item.targets, items.count (.label target) = 1
  no_idle_jump : ∀ target, ¬ [StreamItem.jump target, .label target] <:+: items

theorem Layout.runsLike (hlayout : Layout graph order) {entry : BlockId} {rest : List BlockId}
    (horder : order = entry :: rest) : RunsLike (emitBlocks graph order) graph entry where
  observed_iff oracle view := by
    constructor
    · rintro ⟨steps, rfl⟩
      obtain ⟨others, hsim⟩ := hlayout.exists_graphRun oracle horder steps
      exact ⟨others, (hlayout.observed_eq hsim).symm⟩
    · rintro ⟨steps, rfl⟩
      obtain ⟨others, hsim⟩ := hlayout.exists_streamRun oracle horder steps
      exact ⟨others, hlayout.observed_eq hsim⟩
  not_lost oracle steps := by
    obtain ⟨others, hsim⟩ := hlayout.exists_graphRun oracle horder steps
    exact (hlayout.blur_eq hsim.control).2
  count_label item hitem target htarget := by
    have hmem := hlayout.mem_of_mem_targets hitem htarget
    obtain ⟨block, hblock, _⟩ := hlayout.known target hmem
    rw [count_label_emitBlocks hlayout.sound (by simp [hblock])]
    exact List.count_eq_one_of_mem hlayout.nodup hmem
  no_idle_jump target hinside := by
    have hknown : ∀ id ∈ order, (graph.block? id).isSome := by
      intro id hid
      obtain ⟨block, hblock, _⟩ := hlayout.known id hid
      simp [hblock]
    have hchain := List.IsChain.infix (isChain_emitBlocks hlayout.sound hknown) hinside
    simp at hchain

/-- Remembering an order does not change the code. -/
theorem emitBlocks_modifyBlock_order (id : BlockId) (memo : Option (List BlockId))
    (ids : List BlockId) :
    emitBlocks (graph.modifyBlock id fun block => { block with order := memo }) ids =
      emitBlocks graph ids := by
  induction ids with
  | nil => rfl
  | cons other ids ih =>
      rw [emitBlocks, emitBlocks, ih, block?_modifyBlock]
      by_cases hid : other = id
      · rw [if_pos hid]
        cases graph.block? other <;> rfl
      · rw [if_neg hid]

/-- An entry without predecessors is written out in the order of a search from it,
whether or not that order was remembered. -/
theorem emit_eq_ok (hgraph : Coherent graph) {entry : BlockId} {block : Block}
    (hentry : graph.block? entry = some block) (hpreds : block.preds = []) :
    ∃ after, emit graph entry = (.ok (emitBlocks graph (orderFrom graph entry)), after) := by
  obtain ⟨after, hafter, hmemo⟩ := linearize_eq_ok hgraph hentry hpreds
  have hitems : ∀ ids, emitBlocks after ids = emitBlocks graph ids := by
    rcases hmemo with rfl | ⟨memo, rfl⟩
    · exact fun ids => rfl
    · exact emitBlocks_modifyBlock_order entry memo
  exact ⟨after, by simp only [emit, hafter, hitems]⟩

/-- Take any graph that operations make, and an entry without predecessors such that
all blocks that can be reached from it pass the check. Then the graph is written
out, and running what is written does what running the graph does. -/
theorem emit_runsLike (actions : List Action) {entry : BlockId} {block : Block}
    (hentry : (madeBy actions).block? entry = some block) (hpreds : block.preds = [])
    (hcheck : ∀ id, Reaches (madeBy actions) entry id → check (madeBy actions) id = .ok ()) :
    ∃ items after, emit (madeBy actions) entry = (.ok items, after) ∧
      RunsLike items (madeBy actions) entry := by
  have hgraph := coherent_madeBy actions
  have hknown : ((madeBy actions).block? entry).isSome := by simp [hentry]
  obtain ⟨after, hemit⟩ := emit_eq_ok hgraph hentry hpreds
  obtain ⟨rest, horder⟩ := orderFrom_eq_cons hknown
  exact ⟨_, after, hemit, (layout_orderFrom hgraph hknown hcheck).runsLike horder⟩

/-- A loop: the second block goes to the third while a comparison holds, and to the
last when it does not. -/
def loopActions : List Action :=
  let leave := { operation := .ret none }
  let test := { operation := .branch .ne "c$l" "0" (.ofNat 2) (.ofNat 3) }
  [.newBlock 1, .newBlock 2, .newBlock 3, .newBlock 4, .addEdge (.ofNat 0) (.ofNat 1),
    .append (.ofNat 1) test, .addEdge (.ofNat 1) (.ofNat 2), .addEdge (.ofNat 1) (.ofNat 3),
    .addEdge (.ofNat 2) (.ofNat 1), .append (.ofNat 3) leave]

theorem emit_runsLike_loop :
    (∀ id, Reaches (madeBy loopActions) (.ofNat 0) id →
      check (madeBy loopActions) id = .ok ()) ∧
    ∃ items after, emit (madeBy loopActions) (.ofNat 0) = (.ok items, after) ∧
      RunsLike items (madeBy loopActions) (.ofNat 0) := by
  have hall : ∀ n < 4, check (madeBy loopActions) (.ofNat n) = .ok () := by decide
  have hcheck : ∀ id, Reaches (madeBy loopActions) (.ofNat 0) id →
      check (madeBy loopActions) id = .ok () := by
    intro id hreach
    have hknown := isSome_of_mem_orderFrom
      ((mem_orderFrom_iff (coherent_madeBy loopActions).edgesKnown rfl).mpr hreach)
    have hlt : id.toNat < 4 := (List.getElem?_eq_some_iff.mp (Option.eq_some_of_isSome hknown)).1
    rw [← id.ofNat_toNat]
    exact hall _ hlt
  exact ⟨hcheck, emit_runsLike loopActions rfl rfl hcheck⟩

end ClassLang.Graph
