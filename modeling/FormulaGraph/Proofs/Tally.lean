import FormulaGraph.Graph.Release

/-! Counting holds. What the live nodes and records of a graph hold is counted together; a change to one of
them changes the count by what that one holds. -/

namespace FormulaGraph

deriving instance DecidableEq for Hold

/-- The places it has with the nodes it listens to. -/
def Node.tickets : Node → List Ticket
  | .constant _ | .input _ => []
  | .calculation _ _ _ tickets => tickets
  | .expression _ source => source.tree?.toList.map Tree.ticket

theorem Node.holds_eq (node : Node) :
    node.holds = node.dependencies.map .node ++ node.tickets.map .ticket := by
  cases node with
  | constant | input | calculation => rfl
  | expression scope source => cases h : source.tree? <;> simp [holds, dependencies, tickets, h, Tree.holds]

/-- What it holds as long as it is held itself. -/
def Cell.claims (c : Cell) : List Hold := if c.owners = 0 then [] else c.node.holds

def Record.claims (r : Record) : List Hold := if r.owners = 0 then [] else r.holds

/-- How many of the holds of live nodes and records are such holds. -/
def Graph.tally (g : Graph) (p : Hold → Bool) : Nat :=
  total (g.cells.toList.map fun c => c.claims.countP p) +
    total (g.records.toList.map fun r => r.claims.countP p)

/-- A place with a node, whoever has it. -/
def Hold.isAt (source : NodeId) (slot : Nat) : Hold → Bool
  | .ticket t => t.source == source && t.slot == slot
  | _ => false

section

variable {α : Type} {f : α → Nat} {xs : List α}

theorem total_append (ns ms : List Nat) : total (ns ++ ms) = total ns + total ms := by
  induction ns with
  | nil => simp [total]
  | cons n ns ih => simp only [List.cons_append, total, ih, Nat.add_assoc]

theorem total_map_modify (f : α → Nat) (change : α → α) {i : Nat} {x : α} (hx : xs[i]? = some x) :
    total ((xs.modify i change).map f) + f x = total (xs.map f) + f (change x) := by
  induction xs generalizing i with
  | nil => simp at hx
  | cons y ys ih =>
    cases i with
    | zero =>
      cases hx
      simp only [List.modify_zero_cons, List.map_cons, total]
      omega
    | succ i =>
      rw [List.getElem?_cons_succ] at hx
      have := ih hx
      simp only [List.modify_succ_cons, List.map_cons, total]
      omega

theorem le_total_map {x : α} (hx : x ∈ xs) : f x ≤ total (xs.map f) := by
  induction xs with
  | nil => cases hx
  | cons y ys ih =>
    simp only [List.map_cons, total]
    cases hx with
    | head => omega
    | tail _ hx =>
      have := ih hx
      omega

theorem total_map_le {f' : α → Nat} (h : ∀ x, f x ≤ f' x) : total (xs.map f) ≤ total (xs.map f') := by
  induction xs with
  | nil => exact Nat.le_refl _
  | cons y ys ih =>
    have := h y
    simp only [List.map_cons, total]
    omega

theorem exists_of_total_map_pos (h : 0 < total (xs.map f)) : ∃ x ∈ xs, 0 < f x := by
  induction xs with
  | nil => simp [total] at h
  | cons y ys ih =>
    by_cases hy : 0 < f y
    · exact ⟨y, List.mem_cons_self, hy⟩
    · simp only [List.map_cons, total] at h
      obtain ⟨x, hx, hpos⟩ := ih (by omega)
      exact ⟨x, List.mem_cons_of_mem _ hx, hpos⟩

end

namespace Graph

variable {g : Graph} {n m : NodeId} {r : RecordId} {f : Cell → Cell} {p : Hold → Bool}

@[simp] theorem size_modifyCell : (g.modifyCell n f).cells.size = g.cells.size := by
  simp [modifyCell]

@[simp] theorem records_modifyCell : (g.modifyCell n f).records = g.records := rfl

@[simp] theorem cells_modifyRecord {f : Record → Record} : (g.modifyRecord r f).cells = g.cells := rfl

@[simp] theorem cell_modifyRecord {f : Record → Record} : (g.modifyRecord r f).cell n = g.cell n := rfl

@[simp] theorem node_modifyRecord {f : Record → Record} : (g.modifyRecord r f).node n = g.node n := rfl

@[simp] theorem record_modifyCell : (g.modifyCell n f).record r = g.record r := rfl

theorem cell_modifyCell :
    (g.modifyCell n f).cell m = if m = n ∧ n < g.cells.size then f (g.cell n) else g.cell m := by
  simp only [cell, modifyCell, Array.getElem?_modify]
  by_cases h : n = m
  · subst h
    by_cases hlt : n < g.cells.size
    · simp [hlt]
    · simp [hlt]
  · simp [h, Ne.symm h]

theorem cell_modifyCell_self (h : n < g.cells.size) : (g.modifyCell n f).cell n = f (g.cell n) := by
  simp [cell_modifyCell, h]

theorem cell_modifyCell_of_ne (h : m ≠ n) : (g.modifyCell n f).cell m = g.cell m := by
  simp [cell_modifyCell, h]

/-- What the change leaves alone stays the same everywhere. -/
theorem cell_modifyCell_congr {β : Type} (π : Cell → β) (h : ∀ c, π (f c) = π c) (m : NodeId) :
    π ((g.modifyCell n f).cell m) = π (g.cell m) := by
  rw [cell_modifyCell]
  split
  next hm => rw [h, hm.1]
  · rfl

theorem modifyCell_of_size_le (h : g.cells.size ≤ n) : g.modifyCell n f = g := by
  have hcells : g.cells.modify n f = g.cells := by
    refine Array.ext Array.size_modify fun i _ hi => ?_
    rw [Array.getElem_modify, if_neg (by omega)]
  rw [modifyCell, hcells]

theorem record_modifyRecord {f : Record → Record} {s : RecordId} :
    (g.modifyRecord r f).record s =
      if s = r ∧ r < g.records.size then f (g.record r) else g.record s := by
  simp only [record, modifyRecord, Array.getElem?_modify]
  by_cases h : r = s
  · subst h
    by_cases hlt : r < g.records.size
    · simp [hlt]
    · simp [hlt]
  · simp [h, Ne.symm h]

theorem lt_size_of_owners_pos (h : 0 < (g.cell n).owners) : n < g.cells.size := by
  refine Nat.lt_of_not_le fun hn => ?_
  rw [cell, Array.getElem?_eq_none hn] at h
  simp [Cell.absent] at h

theorem lt_size_of_node (h : g.node n ≠ .constant (.bool false)) : n < g.cells.size := by
  refine Nat.lt_of_not_le fun hn => h ?_
  rw [node, cell, Array.getElem?_eq_none hn]
  rfl

theorem lt_records_size_of_owners_pos (h : 0 < (g.record r).owners) : r < g.records.size := by
  refine Nat.lt_of_not_le fun hn => ?_
  rw [record, Array.getElem?_eq_none hn] at h
  simp at h

theorem tally_modifyCell (h : n < g.cells.size) :
    (g.modifyCell n f).tally p + (g.cell n).claims.countP p =
      g.tally p + (f (g.cell n)).claims.countP p := by
  have hx : g.cells.toList[n]? = some (g.cell n) := by simp [cell, h]
  have := total_map_modify (fun c => c.claims.countP p) f hx
  simp only [tally, modifyCell, Array.toList_modify]
  omega

theorem tally_modifyCell_eq (h : ∀ c, (f c).claims = c.claims) :
    (g.modifyCell n f).tally p = g.tally p := by
  simp only [tally, modifyCell, Array.toList_modify]
  rw [total_map_modify_eq (fun c : Cell => c.claims.countP p)]
  intro c
  rw [h]

theorem tally_modifyRecord {f : Record → Record} (h : r < g.records.size) :
    (g.modifyRecord r f).tally p + (g.record r).claims.countP p =
      g.tally p + (f (g.record r)).claims.countP p := by
  have hx : g.records.toList[r]? = some (g.record r) := by simp [record, h]
  have := total_map_modify (fun c => c.claims.countP p) f hx
  simp only [tally, modifyRecord, Array.toList_modify]
  omega

theorem tally_addCell (node : Node) (cache : Option Value) :
    (g.addCell node cache).2.tally p = g.tally p + node.holds.countP p := by
  simp only [tally, addCell, Array.toList_push, List.map_append, total_append, List.map_cons, List.map_nil,
    total, Cell.claims]
  simp
  omega

theorem tally_mono {q : Hold → Bool} (h : ∀ x, p x = true → q x = true) : g.tally p ≤ g.tally q :=
  Nat.add_le_add (total_map_le fun _ => List.countP_mono_left fun x _ => h x)
    (total_map_le fun _ => List.countP_mono_left fun x _ => h x)

theorem toList_cells (g : Graph) : g.cells.toList = (List.range g.cells.size).map g.cell := by
  refine List.ext_getElem (by simp) fun m hm _ => ?_
  simp [cell, show m < g.cells.size from hm]

theorem countP_claims_le_tally (h : n < g.cells.size) : (g.cell n).claims.countP p ≤ g.tally p := by
  have hx : g.cell n ∈ g.cells.toList := by simp [cell, h]
  have := le_total_map (f := fun c : Cell => c.claims.countP p) hx
  simp only [tally]
  omega

theorem countP_recordClaims_le_tally (h : r < g.records.size) :
    (g.record r).claims.countP p ≤ g.tally p := by
  have hx : g.record r ∈ g.records.toList := by simp [record, h]
  have := le_total_map (f := fun c : Record => c.claims.countP p) hx
  simp only [tally]
  omega

end Graph

end FormulaGraph
