/-
# Refused requests leave no trace

A request to a graph may be refused for many reasons, and some requests drop the
remembered orders before they are refused. This cannot be seen: a remembered order is
the one that would be found anyway. So graphs that differ in remembered orders only
answer every request alike, a refused request leaves such a graph behind, and a history
of requests is not changed for the others when those that were refused are left out.
-/

import ClassLang.Proofs.Graph.Emission
import ClassLang.Proofs.Graph.Structure

namespace ClassLang.Graph

open ClassLang.Code

variable {graph : Graph}

/-! ## Requests -/

/-- What a request that is not refused is answered. -/
inductive Answer where
  | done
  | block (id : BlockId)
  | order (ids : List BlockId)
  | code (items : List StreamItem)
  | text (text : String)
  deriving DecidableEq, Repr

/-- The answer to an operation. -/
def Action.answer (graph : Graph) : Action → Except GraphError Answer
  | newBlock line => .ok (.block (graph.newBlock line).1)
  | append id instruction => (graph.append id instruction).1.map fun _ => .done
  | addEdge source target => (graph.addEdge source target).1.map fun _ => .done
  | removeEdge source target => (graph.removeEdge source target).1.map fun _ => .done
  | editBlock id edit => (graph.editBlock id edit).1.map fun _ => .done
  | linearize entry => (Graph.linearize graph entry).1.map .order
  | emit entry => (Graph.emit graph entry).1.map .code
  | render entry => (Graph.render graph entry).1.map .text

/-- A request to a graph: an operation, or a check, which changes nothing. -/
inductive Request where
  | perform (action : Action)
  | check (id : BlockId)
  | checkAll
  deriving DecidableEq, Repr

namespace Request

/-- The answer to a request. -/
def answer (graph : Graph) : Request → Except GraphError Answer
  | perform action => action.answer graph
  | check id => (Graph.check graph id).map fun _ => .done
  | checkAll => (Graph.checkAll graph).map fun _ => .done

/-- The graph after a request, whether or not the request was refused. -/
def after (graph : Graph) : Request → Graph
  | perform action => action.perform graph
  | check _ | checkAll => graph

end Request

/-- The requests of a history with their answers, where it starts at a graph. -/
def transcript (graph : Graph) : List Request → List (Request × Except GraphError Answer)
  | [] => []
  | request :: requests =>
    (request, request.answer graph) :: transcript (request.after graph) requests

/-- The graph after a history. -/
def afterAll (graph : Graph) (requests : List Request) : Graph :=
  requests.foldl Request.after graph

/-- What of a transcript was not refused. -/
def accepted (entries : List (Request × Except GraphError Answer)) :
    List (Request × Except GraphError Answer) :=
  entries.filter fun entry => entry.2.isOk

/-! ## Graphs without their orders -/

/-- A block as it is without a remembered order. -/
def Block.forgetOrder (block : Block) : Block :=
  { block with order := none }

theorem Block.neighbours_forgetOrder (block : Block) (side : Side) :
    block.forgetOrder.neighbours side = block.neighbours side := by
  cases side <;> rfl

@[simp]
theorem forgetOrders_forgetOrders : graph.forgetOrders.forgetOrders = graph.forgetOrders := by
  simp [forgetOrders]

theorem forgetOrders_modifyBlock_order (id : BlockId) (memo : Option (List BlockId)) :
    (graph.modifyBlock id fun block => { block with order := memo }).forgetOrders =
      graph.forgetOrders := by
  rw [forgetOrders, modifyBlock, forgetOrders, Graph.mk.injEq]
  apply List.ext_getElem?
  intro index
  rw [List.getElem?_map, List.getElem?_modify, List.getElem?_map]
  split <;> cases graph.blocks[index]? <;> rfl

/-- Finding an order changes nothing but what is remembered. -/
theorem forgetOrders_linearize (entry : BlockId) :
    (linearize graph entry).2.forgetOrders = graph.forgetOrders := by
  unfold linearize
  split
  · rfl
  · split
    · rfl
    · split
      · rfl
      · exact forgetOrders_modifyBlock_order entry _

/-! ## Structural operations -/

theorem newBlock_forgetOrders (line : Nat) :
    graph.forgetOrders.newBlock line = graph.newBlock line := by
  simp [newBlock, forgetOrders, size]

/-- Changes to a block start by forgetting the orders, so they need not be known. -/
theorem append_forgetOrders (id : BlockId) (instruction : Instruction) :
    graph.forgetOrders.append id instruction = graph.append id instruction := by
  rw [append, append, forgetOrders_forgetOrders]

theorem editBlock_forgetOrders (id : BlockId) (edit : BlockEdit) :
    graph.forgetOrders.editBlock id edit = graph.editBlock id edit := by
  rw [editBlock, editBlock, forgetOrders_forgetOrders]

/-- Two outcomes are the same but for remembered orders. Of what is refused it is not
compared how. -/
structure Alike {α : Type} (outcome other : Except GraphError α × Graph) : Prop where
  answer : other.1.toOption = outcome.1.toOption
  graph : other.2.forgetOrders = outcome.2.forgetOrders

theorem alike_addEdge (source target : BlockId) :
    Alike (graph.addEdge source target) (graph.forgetOrders.addEdge source target) := by
  unfold addEdge
  rw [block?_forgetOrders, block?_forgetOrders]
  cases graph.block? source with
  | none => exact ⟨rfl, forgetOrders_forgetOrders⟩
  | some sourceBlock =>
      cases graph.block? target with
      | none => exact ⟨rfl, forgetOrders_forgetOrders⟩
      | some targetBlock =>
          dsimp only [Option.map_some]
          split
          · exact ⟨rfl, forgetOrders_forgetOrders⟩
          · split
            · exact ⟨rfl, forgetOrders_forgetOrders⟩
            · rw [forgetOrders_forgetOrders]
              exact ⟨rfl, rfl⟩

theorem alike_removeEdge (source target : BlockId) :
    Alike (graph.removeEdge source target) (graph.forgetOrders.removeEdge source target) := by
  unfold removeEdge
  rw [block?_forgetOrders, block?_forgetOrders]
  cases graph.block? source with
  | none => exact ⟨rfl, forgetOrders_forgetOrders⟩
  | some sourceBlock =>
      cases graph.block? target with
      | none => exact ⟨rfl, forgetOrders_forgetOrders⟩
      | some targetBlock =>
          dsimp only [Option.map_some]
          split
          · rw [forgetOrders_forgetOrders]
            exact ⟨rfl, rfl⟩
          · exact ⟨rfl, forgetOrders_forgetOrders⟩

/-! ## Orders and code -/

/-- The order is found again where it was remembered. -/
theorem linearize_fst_forgetOrders (hgraph : Coherent graph) (entry : BlockId) :
    (linearize graph.forgetOrders entry).1 = (linearize graph entry).1 := by
  cases hentry : graph.block? entry with
  | none => simp [linearize, block?_forgetOrders, hentry]
  | some block =>
      by_cases hpreds : block.preds = []
      · obtain ⟨after, hafter, _⟩ := linearize_eq_ok hgraph hentry hpreds
        rw [hafter, linearize_forgetOrders hentry hpreds]
      · simp [linearize, block?_forgetOrders, hentry, hpreds]

theorem emitBlocks_forgetOrders : emitBlocks graph.forgetOrders = emitBlocks graph := by
  funext ids
  induction ids with
  | nil => rfl
  | cons id ids ih =>
      rw [emitBlocks, emitBlocks, ih, block?_forgetOrders]
      cases graph.block? id <;> rfl

/-- The code is that of the order that is found. -/
theorem emit_fst (entry : BlockId) :
    (emit graph entry).1 = (linearize graph entry).1.map (emitBlocks graph) := by
  have hsame : emitBlocks (linearize graph entry).2 = emitBlocks graph := by
    rw [← emitBlocks_forgetOrders, forgetOrders_linearize, emitBlocks_forgetOrders]
  unfold emit
  rcases hlinearize : linearize graph entry with ⟨_ | order, after⟩
  · rfl
  · rw [hlinearize] at hsame
    rw [← hsame]
    rfl

theorem render_fst (entry : BlockId) :
    (render graph entry).1 = (emit graph entry).1.map streamText := by
  unfold render
  rcases emit graph entry with ⟨_ | items, after⟩ <;> rfl

/-! ## Checks -/

section ToOption

variable {α β ε : Type}

theorem toOption_map (answer : Except ε α) (convert : α → β) :
    (answer.map convert).toOption = answer.toOption.map convert := by
  cases answer <;> rfl

theorem toOption_bind (answer : Except ε α) (next : α → Except ε β) :
    (answer.bind next).toOption = answer.toOption.bind fun value => (next value).toOption := by
  cases answer <;> rfl

theorem toOption_eq_some_iff {answer : Except ε α} {value : α} :
    answer.toOption = some value ↔ answer = .ok value := by
  cases answer <;> simp [Except.toOption]

end ToOption

theorem loopDepth?_forgetOrders (id : BlockId) :
    loopDepth? graph.forgetOrders id = loopDepth? graph id := by
  rw [loopDepth?, block?_forgetOrders, Option.map_map]
  rfl

theorem checkDepths_forgetOrders (block : Block) (side : Side) (changes : Nat)
    (ids : List BlockId) :
    (checkDepths graph.forgetOrders block.forgetOrder side changes ids).toOption =
      (checkDepths graph block side changes ids).toOption := by
  induction ids generalizing changes with
  | nil =>
      rw [checkDepths, checkDepths]
      split <;> rfl
  | cons id ids ih =>
      rw [checkDepths, checkDepths, loopDepth?_forgetOrders]
      cases loopDepth? graph id with
      | none => rfl
      | some depth =>
          dsimp only [Block.forgetOrder]
          split
          · rfl
          · exact ih _

theorem check_forgetOrders (id : BlockId) :
    (check graph.forgetOrders id).toOption = (check graph id).toOption := by
  have hforgotten : graph.forgetOrders.block? id = (graph.block? id).map Block.forgetOrder :=
    block?_forgetOrders id
  cases hblock : graph.block? id with
  | none =>
      rw [hblock, Option.map_none] at hforgotten
      rw [check, hforgotten, check, hblock]
  | some block =>
      rw [hblock, Option.map_some] at hforgotten
      cases hexits : block.exitDefect? with
      | some defect =>
          rw [check_of_defect hforgotten hexits, check_of_defect hblock hexits]
          rfl
      | none =>
          rw [check_of_exits hforgotten hexits, check_of_exits hblock hexits, toOption_bind,
            toOption_bind]
          simp only [checkDepths_forgetOrders, block.neighbours_forgetOrder]

theorem checkAll_forgetOrders :
    (checkAll graph.forgetOrders).toOption = (checkAll graph).toOption := by
  have hwalk : ∀ blocks : List Block,
      ((blocks.map Block.forgetOrder).forM fun block =>
        check graph.forgetOrders block.id).toOption =
      (blocks.forM fun block => check graph block.id).toOption := by
    intro blocks
    induction blocks with
    | nil => rfl
    | cons block blocks ih =>
        refine (toOption_bind _ _).trans (Eq.trans ?_ (toOption_bind _ _).symm)
        rw [ih]
        exact congrArg (Option.bind · _) (check_forgetOrders block.id)
  exact hwalk graph.blocks

/-! ## Any request -/

theorem alike_perform (hgraph : Coherent graph) (action : Action) :
    Alike (action.answer graph, action.perform graph)
      (action.answer graph.forgetOrders, action.perform graph.forgetOrders) := by
  cases action with
  | newBlock line =>
      rw [Action.answer, Action.answer, Action.perform, Action.perform, newBlock_forgetOrders]
      exact ⟨rfl, rfl⟩
  | append id instruction =>
      rw [Action.answer, Action.answer, Action.perform, Action.perform, append_forgetOrders]
      exact ⟨rfl, rfl⟩
  | editBlock id edit =>
      rw [Action.answer, Action.answer, Action.perform, Action.perform, editBlock_forgetOrders]
      exact ⟨rfl, rfl⟩
  | addEdge source target =>
      have halike := @alike_addEdge graph source target
      refine ⟨?_, halike.graph⟩
      simp only [Action.answer, toOption_map, halike.answer]
  | removeEdge source target =>
      have halike := @alike_removeEdge graph source target
      refine ⟨?_, halike.graph⟩
      simp only [Action.answer, toOption_map, halike.answer]
  | linearize entry =>
      constructor
      · simp only [Action.answer, linearize_fst_forgetOrders hgraph]
      · simp only [Action.perform, forgetOrders_linearize, forgetOrders_forgetOrders]
  | emit entry =>
      constructor
      · simp only [Action.answer, emit_fst, linearize_fst_forgetOrders hgraph,
          emitBlocks_forgetOrders]
      · simp only [Action.perform, emit_snd, forgetOrders_linearize, forgetOrders_forgetOrders]
  | render entry =>
      constructor
      · simp only [Action.answer, render_fst, emit_fst, linearize_fst_forgetOrders hgraph,
          emitBlocks_forgetOrders]
      · simp only [Action.perform, render_snd, forgetOrders_linearize, forgetOrders_forgetOrders]

/-- Whether orders are remembered makes no difference to any request. -/
theorem alike_request (hgraph : Coherent graph) (request : Request) :
    Alike (request.answer graph, request.after graph)
      (request.answer graph.forgetOrders, request.after graph.forgetOrders) := by
  cases request with
  | perform action => exact alike_perform hgraph action
  | check id =>
      refine ⟨?_, forgetOrders_forgetOrders⟩
      simp only [Request.answer, toOption_map, check_forgetOrders]
  | checkAll =>
      refine ⟨?_, forgetOrders_forgetOrders⟩
      simp only [Request.answer, toOption_map, checkAll_forgetOrders]

/-! ## Refused requests -/

/-- If it is refused, an operation has at most dropped the orders of a graph. -/
def LeavesNoTrace (graph : Graph) {α : Type} (outcome : Except GraphError α × Graph) : Prop :=
  outcome.1.toOption = none → outcome.2.forgetOrders = graph.forgetOrders

theorem LeavesNoTrace.map {α β : Type} {outcome : Except GraphError α × Graph}
    (hkept : LeavesNoTrace graph outcome) (convert : α → β) :
    LeavesNoTrace graph (outcome.1.map convert, outcome.2) := by
  intro hrefused
  rw [toOption_map, Option.map_eq_none_iff] at hrefused
  exact hkept hrefused

theorem leavesNoTrace_append (id : BlockId) (instruction : Instruction) :
    LeavesNoTrace graph (graph.append id instruction) := by
  unfold append
  dsimp only
  split
  · exact fun _ => forgetOrders_forgetOrders
  · split
    · exact fun _ => forgetOrders_forgetOrders
    · exact nofun

theorem leavesNoTrace_editBlock (id : BlockId) (edit : BlockEdit) :
    LeavesNoTrace graph (graph.editBlock id edit) := by
  unfold editBlock
  dsimp only
  split
  · exact fun _ => forgetOrders_forgetOrders
  · exact nofun

theorem leavesNoTrace_addEdge (source target : BlockId) :
    LeavesNoTrace graph (graph.addEdge source target) := by
  unfold addEdge
  split
  · exact fun _ => rfl
  · exact fun _ => rfl
  · split
    · exact fun _ => rfl
    · split
      · exact fun _ => rfl
      · exact nofun

theorem leavesNoTrace_removeEdge (source target : BlockId) :
    LeavesNoTrace graph (graph.removeEdge source target) := by
  unfold removeEdge
  split
  · exact fun _ => rfl
  · exact fun _ => rfl
  · split
    · exact nofun
    · exact fun _ => rfl

theorem leavesNoTrace_request (request : Request) :
    LeavesNoTrace graph (request.answer graph, request.after graph) := by
  cases request with
  | check id => exact fun _ => rfl
  | checkAll => exact fun _ => rfl
  | perform action =>
      cases action with
      | newBlock line => exact nofun
      | append id instruction => exact (leavesNoTrace_append id instruction).map _
      | addEdge source target => exact (leavesNoTrace_addEdge source target).map _
      | removeEdge source target => exact (leavesNoTrace_removeEdge source target).map _
      | editBlock id edit => exact (leavesNoTrace_editBlock id edit).map _
      | linearize entry => exact fun _ => forgetOrders_linearize entry
      | emit entry =>
          intro _
          simp only [Request.after, Action.perform, emit_snd, forgetOrders_linearize]
      | render entry =>
          intro _
          simp only [Request.after, Action.perform, render_snd, forgetOrders_linearize]

/-! ## Histories -/

theorem coherent_after (hgraph : Coherent graph) (request : Request) :
    Coherent (request.after graph) := by
  cases request with
  | perform action => exact coherent_perform hgraph action
  | check id => exact hgraph
  | checkAll => exact hgraph

/-- The requests of a history that are not refused are answered the same when they are
made without the others, also on a graph that remembers other orders. -/
theorem transcript_accepted {other : Graph} (hgraph : Coherent graph) (hother : Coherent other)
    (hsame : other.forgetOrders = graph.forgetOrders) (requests : List Request) :
    let kept := accepted (transcript graph requests)
    transcript other (kept.map Prod.fst) = kept ∧
      (afterAll other (kept.map Prod.fst)).forgetOrders =
        (afterAll graph requests).forgetOrders := by
  induction requests generalizing graph other with
  | nil => exact ⟨rfl, hsame⟩
  | cons request requests ih =>
      have hafter := coherent_after hgraph request
      cases hanswer : request.answer graph with
      | error error =>
          have hkept : accepted (transcript graph (request :: requests)) =
              accepted (transcript (request.after graph) requests) := by
            simp [accepted, transcript, hanswer, Except.isOk, Except.toBool]
          have hleft : (request.after graph).forgetOrders = graph.forgetOrders :=
            leavesNoTrace_request request (by rw [hanswer]; rfl)
          rw [hkept]
          exact ih hafter hother (hsame.trans hleft.symm)
      | ok answer =>
          have hkept : accepted (transcript graph (request :: requests)) =
              (request, .ok answer) :: accepted (transcript (request.after graph) requests) := by
            simp [accepted, transcript, hanswer, Except.isOk, Except.toBool]
          have halike := alike_request hgraph request
          have hagain := alike_request hother request
          rw [hsame] at hagain
          have hgiven : request.answer other = .ok answer := by
            rw [← toOption_eq_some_iff, ← hagain.answer, halike.answer, hanswer]
            rfl
          have hrest := ih hafter (coherent_after hother request)
            (hagain.graph.symm.trans halike.graph)
          rw [hkept]
          constructor
          · rw [List.map_cons, transcript, hgiven, hrest.1]
          · exact hrest.2

/-- Leave out of any history all requests that were refused. Then all others are
answered as before, and the blocks are the same in everything but remembered orders. -/
theorem refusals_unobservable (requests : List Request) :
    let kept := accepted (transcript {} requests)
    transcript {} (kept.map Prod.fst) = kept ∧
      (afterAll {} (kept.map Prod.fst)).forgetOrders = (afterAll {} requests).forgetOrders :=
  transcript_accepted coherent_empty coherent_empty rfl requests

end ClassLang.Graph
