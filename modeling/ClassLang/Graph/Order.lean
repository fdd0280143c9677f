/-
# The order of blocks

The blocks that can be reached from an entry are put in depth-first order, each
when it is first met, and after a branch the target of a true comparison comes
before the other. The search keeps the blocks still to be visited on a stack.
The entry block remembers the order until the graph changes.
-/

import ClassLang.Graph.Basic

namespace ClassLang.Graph

open ClassLang.Code

/-- The number of blocks that an order has not reached. -/
def unreached (graph : Graph) (order : List BlockId) : Nat :=
  (List.range graph.size).countP fun n => BlockId.ofNat n ∉ order

/-- Reaching a new block leaves fewer to be reached. -/
theorem unreached_append_lt {graph : Graph} {order : List BlockId} {id : BlockId} {block : Block}
    (hblock : graph.block? id = some block) (hnew : id ∉ order) :
    unreached graph (order ++ [id]) < unreached graph order := by
  have hrange : id.toNat ∈ List.range graph.size :=
    List.mem_range.mpr (List.getElem?_eq_some_iff.mp hblock).1
  unfold unreached
  generalize List.range graph.size = indices at hrange
  have hle : ∀ indices : List Nat,
      indices.countP (fun n => decide (BlockId.ofNat n ∉ order ++ [id])) ≤
        indices.countP (fun n => decide (BlockId.ofNat n ∉ order)) := by
    intro indices
    apply List.countP_mono_left
    intro n _ hn
    simp_all
  obtain ⟨before, after, rfl⟩ := List.append_of_mem hrange
  have hbefore := hle before
  have hafter := hle after
  simp only [List.countP_append, List.countP_cons]
  simp [hnew] at hbefore hafter ⊢
  omega

/-- Visit the blocks on the stack, and from each the blocks that can be reached
and are not in `order` yet. -/
def visit (graph : Graph) (order : List BlockId) : List BlockId → List BlockId
  | [] => order
  | id :: stack =>
    match _hblock : graph.block? id with
    | none => visit graph order stack
    | some block =>
      if _hnew : id ∈ order then visit graph order stack
      else
        let order' := order ++ [id]
        visit graph order' (block.visitOrder.filter (· ∉ order') ++ stack)
termination_by stack => (unreached graph order, stack.length)
decreasing_by
  · exact Prod.Lex.right _ (by simp)
  · exact Prod.Lex.right _ (by simp)
  · exact Prod.Lex.left _ _ (unreached_append_lt _hblock _hnew)

/-- The order of the blocks that can be reached from an entry. -/
def orderFrom (graph : Graph) (entry : BlockId) : List BlockId :=
  visit graph [] [entry]

/-- Find the order from an entry, which must have no predecessors, and remember
it there. -/
def linearize (graph : Graph) (entry : BlockId) : Except GraphError (List BlockId) × Graph :=
  match graph.block? entry with
  | none => (.error (.unknownBlock entry), graph)
  | some block =>
    if block.preds ≠ [] then (.error (.entryHasPreds entry block.preds.length), graph)
    else
      match block.order with
      | some order => (.ok order, graph)
      | none =>
        let order := orderFrom graph entry
        (.ok order, graph.modifyBlock entry fun block => { block with order := some order })

end ClassLang.Graph
