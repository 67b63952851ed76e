import FormulaGraph.Graph.Basic

/-! Searching a graph depth first, each node once. -/

namespace FormulaGraph

/-- The nodes that a search has come to, out of a fixed number. -/
structure Marks where
  seen : Array Bool

namespace Marks

def none (size : Nat) : Marks := ⟨Array.replicate size false⟩

/-- Whether there is such a node and it is not marked yet. -/
def isNew (m : Marks) (n : NodeId) : Bool := m.seen[n]? == some false

def mark (m : Marks) (n : NodeId) : Marks := ⟨m.seen.setIfInBounds n true⟩

/-- The cost of the nodes that are left to come to, from the node `i` on. -/
def costFrom (cost : NodeId → Nat) (i : Nat) : List Bool → Nat
  | [] => 0
  | seen :: rest => (if seen then 0 else cost i) + costFrom cost (i + 1) rest

def cost (m : Marks) (cost : NodeId → Nat) : Nat := costFrom cost 0 m.seen.toList

theorem costFrom_set (cost : NodeId → Nat) {seen : List Bool} {i k : Nat}
    (h : seen[k]? = some false) :
    cost (i + k) + costFrom cost i (seen.set k true) = costFrom cost i seen := by
  induction seen generalizing i k with
  | nil => simp at h
  | cons s seen ih =>
    cases k with
    | zero =>
      simp only [List.getElem?_cons_zero, Option.some.injEq] at h
      simp [costFrom, h]
    | succ k =>
      rw [List.getElem?_cons_succ] at h
      have := @ih (i + 1) k h
      rw [show i + 1 + k = i + (k + 1) by omega] at this
      simp only [List.set_cons_succ, costFrom]
      omega

/-- Coming to a node pays for it. -/
theorem cost_mark (cost : NodeId → Nat) {m : Marks} {n : NodeId} (h : m.isNew n = true) :
    cost n + (m.mark n).cost cost = m.cost cost := by
  have h' : m.seen.toList[n]? = some false := by simpa using beq_iff_eq.1 h
  simpa [Marks.cost, mark] using costFrom_set cost h' (i := 0)

end Marks

/-- Whether a search from the nodes on the stack comes to `target`. -/
def reachesFrom (next : NodeId → List NodeId) (target : NodeId) (stack : List NodeId) (m : Marks) :
    Bool :=
  match stack with
  | [] => false
  | n :: stack =>
    if n = target then true
    else if _h : m.isNew n then reachesFrom next target ((next n).reverse ++ stack) (m.mark n)
    else reachesFrom next target stack m
termination_by m.cost (fun n => (next n).length) + stack.length
decreasing_by
  · have := Marks.cost_mark (fun n => (next n).length) _h
    simp only [List.length_append, List.length_reverse, List.length_cons]
    omega
  · simp

namespace Graph

/-- Roots that are taken for the trees of expressions, in place of the built ones. -/
abbrev Replaced := List (NodeId × NodeId)

def nextWith (g : Graph) (replaced : Replaced) (n : NodeId) : List NodeId :=
  match replaced.lookup n with
  | some root => [root]
  | none => g.dependencies n

def reaches (g : Graph) (replaced : Replaced) (start target : NodeId) : Bool :=
  reachesFrom (g.nextWith replaced) target [start] (.none g.cells.size)

/-- Whether reading `n` may read `target`, or is reading it. -/
def dependsOn (g : Graph) (n target : NodeId) : Bool := g.reaches [] n target

end Graph

end FormulaGraph
