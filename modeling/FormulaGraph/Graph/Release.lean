import FormulaGraph.Graph.Basic

/-! Holding and giving up. What nothing holds any more gives up what it held itself, and so on before
the next thing is given up. -/

namespace FormulaGraph

inductive Hold where
  | node (n : NodeId)
  | record (r : RecordId)
  | ticket (t : Ticket)
deriving Repr

mutual

def Member.holds : Member → List Hold
  | .node n => [.node n]
  | .record r => [.record r]
  | .list items => Member.holdsAll items

def Member.holdsAll : List Member → List Hold
  | [] => []
  | item :: items => item.holds ++ Member.holdsAll items

end

def Tree.holds (tree : Tree) : List Hold := [.node tree.root, .ticket tree.ticket]

def Node.holds : Node → List Hold
  | .constant _ | .input _ => []
  | .calculation _ operands _ tickets => operands.map .node ++ tickets.map .ticket
  | .expression _ source => source.tree?.toList.flatMap Tree.holds

def Record.holds (record : Record) : List Hold :=
  record.members.toList.flatMap (·.2.holds) ++ record.parent.toList.map .record

namespace Graph

def setOwners (g : Graph) (n : NodeId) (owners : Nat) : Graph := g.modifyCell n ({ · with owners })

def setRecordOwners (g : Graph) (r : RecordId) (owners : Nat) : Graph :=
  g.modifyRecord r ({ · with owners })

def retain (g : Graph) : Hold → Graph
  | .node n => g.setOwners n ((g.cell n).owners + 1)
  | .record r => g.setRecordOwners r ((g.record r).owners + 1)
  | .ticket _ => g

def retainAll (g : Graph) (holds : List Hold) : Graph := holds.foldl retain g

end Graph

def total : List Nat → Nat
  | [] => 0
  | n :: ns => n + total ns

/-- The holds on it, and those of its own that it gives up with the last of them. -/
def Cell.weight (c : Cell) : Nat := if c.owners = 0 then 0 else c.owners + c.node.holds.length

def Record.weight (r : Record) : Nat := if r.owners = 0 then 0 else r.owners + r.holds.length

def Graph.weight (g : Graph) : Nat :=
  total (g.cells.toList.map Cell.weight) + total (g.records.toList.map Record.weight)

theorem total_map_modify_lt {α : Type} (f : α → Nat) (change : α → α) {xs : List α} {i k : Nat}
    {x : α} (hx : xs[i]? = some x) (h : k + f (change x) < f x) :
    k + total ((xs.modify i change).map f) < total (xs.map f) := by
  induction xs generalizing i with
  | nil => simp at hx
  | cons y ys ih =>
    cases i with
    | zero =>
      simp only [List.getElem?_cons_zero, Option.some.injEq] at hx
      subst hx
      simp only [List.modify_zero_cons, List.map_cons, total]
      omega
    | succ i =>
      rw [List.getElem?_cons_succ] at hx
      have := ih hx
      simp only [List.modify_succ_cons, List.map_cons, total]
      omega

theorem total_map_modify_eq {α : Type} (f : α → Nat) (change : α → α) (h : ∀ x, f (change x) = f x)
    (xs : List α) (i : Nat) : total ((xs.modify i change).map f) = total (xs.map f) := by
  induction xs generalizing i with
  | nil => simp
  | cons y ys ih => cases i <;> simp [total, h, ih]

namespace Graph

/-- What a node gives up when `left` holds on it are left. -/
def freed (g : Graph) (n : NodeId) (left : Nat) : List Hold :=
  if left = 0 then (g.node n).holds else []

def freedRecord (g : Graph) (r : RecordId) (left : Nat) : List Hold :=
  if left = 0 then (g.record r).holds else []

theorem weight_setOwners_lt {g : Graph} {n : NodeId} {k : Nat} (h : (g.cell n).owners = k + 1) :
    (g.freed n k).length + (g.setOwners n k).weight < g.weight := by
  cases hc : g.cells[n]? with
  | none => simp [cell, hc, Cell.absent] at h
  | some c =>
    have hk : c.owners = k + 1 := by simpa [cell, hc] using h
    have hx : g.cells.toList[n]? = some c := by simpa using hc
    have hw : (g.freed n k).length + Cell.weight { c with owners := k } < c.weight := by
      simp only [Cell.weight, hk, freed, node, cell, hc, Option.getD_some]
      split <;> simp
    have := total_map_modify_lt Cell.weight ({ · with owners := k }) hx hw
    simp only [weight, setOwners, modifyCell, Array.toList_modify]
    omega

theorem weight_setRecordOwners_lt {g : Graph} {r : RecordId} {k : Nat}
    (h : (g.record r).owners = k + 1) :
    (g.freedRecord r k).length + (g.setRecordOwners r k).weight < g.weight := by
  cases hc : g.records[r]? with
  | none => simp [record, hc] at h
  | some c =>
    have hk : c.owners = k + 1 := by simpa [record, hc] using h
    have hx : g.records.toList[r]? = some c := by simpa using hc
    have hw : (g.freedRecord r k).length + Record.weight { c with owners := k } < c.weight := by
      simp only [Record.weight, hk, freedRecord, record, hc, Option.getD_some, Record.holds]
      split <;> simp
    have := total_map_modify_lt Record.weight ({ · with owners := k }) hx hw
    simp only [weight, setRecordOwners, modifyRecord, Array.toList_modify]
    omega

theorem weight_unsubscribe (g : Graph) (t : Ticket) : (g.unsubscribe t).weight = g.weight := by
  unfold unsubscribe
  split
  · simp only [weight, modifyCell, Array.toList_modify]
    rw [total_map_modify_eq Cell.weight]
    exact fun _ => rfl
  · rfl

/-- Gives up one hold after the other. -/
def release (g : Graph) (holds : List Hold) : Graph :=
  match holds with
  | [] => g
  | .node n :: rest =>
    match _h : (g.cell n).owners with
    | 0 => g.release rest
    | left + 1 =>
      let more := g.freed n left
      (g.setOwners n left).release (more ++ rest)
  | .record r :: rest =>
    match _h : (g.record r).owners with
    | 0 => g.release rest
    | left + 1 =>
      let more := g.freedRecord r left
      (g.setRecordOwners r left).release (more ++ rest)
  | .ticket t :: rest => (g.unsubscribe t).release rest
termination_by g.weight + holds.length
decreasing_by
  · simp
  · have := weight_setOwners_lt _h
    simp only [List.length_append, List.length_cons]
    omega
  · simp
  · have := weight_setRecordOwners_lt _h
    simp only [List.length_append, List.length_cons]
    omega
  · simp [weight_unsubscribe]

end Graph

end FormulaGraph
