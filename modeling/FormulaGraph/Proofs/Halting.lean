import FormulaGraph.Proofs.Rewiring

/-! How long the search for a node takes. A turn of its loop takes one node from the stack, and what a node leads to is
put there once, so there are no more turns than steps from one node to the next, and one for the start. -/

namespace FormulaGraph

open FormulaGraph.Graph Relation

variable {next : NodeId → List NodeId} {target : NodeId} {stack : List NodeId} {marks : Marks}

theorem Marks.costFrom_replicate (cost : NodeId → Nat) (i size : Nat) :
    costFrom cost i (List.replicate size false) = ((List.range' i size).map cost).sum := by
  induction size generalizing i with
  | zero => rfl
  | succ size ih =>
    rw [List.replicate_succ, costFrom, ih, List.range'_succ, List.map_cons, List.sum_cons]
    rfl

theorem Marks.cost_none (cost : NodeId → Nat) (size : Nat) :
    (none size).cost cost = ((List.range size).map cost).sum := by
  rw [Marks.cost, none, Array.toList_replicate, costFrom_replicate, List.range_eq_range']

/-- The search with so many turns of its loop. Nothing comes of it if they are used up with nodes left on the stack. -/
def reachesWithin (next : NodeId → List NodeId) (target : NodeId) : Nat → List NodeId → Marks → Option Bool
  | _, [], _ => some false
  | 0, _ :: _, _ => none
  | turns + 1, n :: stack, m =>
    if n = target then some true
    else if m.isNew n then reachesWithin next target turns ((next n).reverse ++ stack) (m.mark n)
    else reachesWithin next target turns stack m

/-- What the nodes left to come to lead to pays for the turns. -/
theorem reachesWithin_eq {turns : Nat} (h : marks.cost (fun n => (next n).length) + stack.length ≤ turns) :
    reachesWithin next target turns stack marks = some (reachesFrom next target stack marks) := by
  induction turns generalizing stack marks with
  | zero =>
    have hlength : stack.length = 0 := by omega
    rw [List.eq_nil_of_length_eq_zero hlength, reachesWithin, reachesFrom]
  | succ turns ih =>
    cases stack with
    | nil => rw [reachesWithin, reachesFrom]
    | cons n stack =>
      rw [List.length_cons] at h
      rw [reachesWithin, reachesFrom]
      by_cases hn : n = target
      · rw [if_pos hn, if_pos hn]
      · rw [if_neg hn, if_neg hn]
        by_cases hnew : marks.isNew n = true
        · have hcost := Marks.cost_mark (fun n => (next n).length) hnew
          rw [if_pos hnew, dif_pos hnew]
          refine ih ?_
          rw [List.length_append, List.length_reverse]
          omega
        · rw [if_neg hnew, dif_neg hnew]
          exact ih (by omega)

namespace Graph

/-- How many steps lead from a node to another one, with other trees for some of the nodes. -/
def stepCount (g : Graph) (replaced : Replaced) : Nat :=
  ((List.range g.cells.size).map fun n => (g.nextWith replaced n).length).sum

/-- In every graph, with and without cycles, the search says just whether there is a way from a node to another one
on which a node with another tree leads to that tree and any other one to what it reads. It comes to an end. -/
theorem reaches_exact (g : Graph) (replaced : Replaced) (start target : NodeId) :
    (g.reaches replaced start target = true ↔
      ReflTransGen (fun a b => a < g.cells.size ∧ g.Rewired replaced a b) start target) ∧
    reachesWithin (g.nextWith replaced) target (g.stepCount replaced + 1) [start] (.none g.cells.size) =
      some (g.reaches replaced start target) := by
  constructor
  · rw [reaches_iff_way]
    simp only [mem_nextWith_iff]
  · exact reachesWithin_eq (by rw [Marks.cost_none]; exact Nat.le_refl _)

end Graph

end FormulaGraph
