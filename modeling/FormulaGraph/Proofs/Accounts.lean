import FormulaGraph.Proofs.Slots
import FormulaGraph.Proofs.Tally

/-! The books of a graph: nothing is held more often than it is counted, and every place with a node is
taken by whoever has it. Holding and giving up keep the books. -/

namespace FormulaGraph

theorem Cell.mem_claims {c : Cell} {x : Hold} : x ∈ c.claims ↔ 0 < c.owners ∧ x ∈ c.node.holds := by
  rw [claims]
  split
  next hz => simp [hz]
  next hz => simp [Nat.pos_of_ne_zero hz]

theorem Record.mem_claims {r : Record} {x : Hold} : x ∈ r.claims ↔ 0 < r.owners ∧ x ∈ r.holds := by
  rw [claims]
  split
  next hz => simp [hz]
  next hz => simp [Nat.pos_of_ne_zero hz]

namespace Graph

def Registered (g : Graph) (t : Ticket) (l : Listener) : Prop :=
  (g.cell t.source).listeners.Holds t.slot t.generation l

/-- The books are right if `ext` is what is held from outside. -/
structure Accounts (g : Graph) (ext : List Hold) : Prop where
  nodes (n : NodeId) : g.tally (· == .node n) + ext.countP (· == .node n) ≤ (g.cell n).owners
  records (r : RecordId) :
    g.tally (· == .record r) + ext.countP (· == .record r) ≤ (g.record r).owners
  places (source : NodeId) (slot : Nat) :
    g.tally (Hold.isAt source slot) + ext.countP (Hold.isAt source slot) ≤ 1
  registered (t : Ticket) :
    0 < g.tally (· == .ticket t) + ext.countP (· == .ticket t) → ∃ l, g.Registered t l
  arenas (n : NodeId) : (g.cell n).listeners.Ok
  listens (n : NodeId) (t : Ticket) :
    0 < (g.cell n).owners → t ∈ (g.node n).tickets → g.Registered t (.node n)
  sources (n : NodeId) :
    0 < (g.cell n).owners → (g.node n).tickets.map Ticket.source = g.dependencies n

variable {g g' : Graph} {ext ext' holds : List Hold} {n m : NodeId} {r : RecordId} {t : Ticket}
  {l : Listener}

theorem countP_pos_of_mem {h : Hold} (hmem : h ∈ ext) : 0 < ext.countP (· == h) :=
  List.countP_pos_iff.mpr ⟨h, hmem, beq_self_eq_true h⟩

theorem tally_pos_of_node {h : Hold} (hn : 0 < (g.cell n).owners) (hmem : h ∈ (g.node n).holds) :
    0 < g.tally (· == h) :=
  Nat.lt_of_lt_of_le (countP_pos_of_mem (Cell.mem_claims.mpr ⟨hn, hmem⟩))
    (countP_claims_le_tally (lt_size_of_owners_pos hn))

theorem tally_pos_of_record {h : Hold} (hr : 0 < (g.record r).owners) (hmem : h ∈ (g.record r).holds) :
    0 < g.tally (· == h) :=
  Nat.lt_of_lt_of_le (countP_pos_of_mem (Record.mem_claims.mpr ⟨hr, hmem⟩))
    (countP_recordClaims_le_tally (lt_records_size_of_owners_pos hr))

/-- Whatever is held is held by a live node or by a live record. -/
theorem exists_holder {p : Hold → Bool} (h : 0 < g.tally p) :
    (∃ n x, 0 < (g.cell n).owners ∧ x ∈ (g.node n).holds ∧ p x = true) ∨
      ∃ r x, 0 < (g.record r).owners ∧ x ∈ (g.record r).holds ∧ p x = true := by
  rw [tally, toList_cells] at h
  rcases Nat.add_pos_iff_pos_or_pos.mp h with hcell | hrecord
  · left
    obtain ⟨c, hc, hpos⟩ := exists_of_total_map_pos hcell
    obtain ⟨n, -, rfl⟩ := List.mem_map.mp hc
    obtain ⟨x, hx, hp⟩ := List.countP_pos_iff.mp hpos
    obtain ⟨hn, hmem⟩ := Cell.mem_claims.mp hx
    exact ⟨n, x, hn, hmem, hp⟩
  · right
    obtain ⟨c, hc, hpos⟩ := exists_of_total_map_pos hrecord
    obtain ⟨r, hr, rfl⟩ := List.getElem_of_mem hc
    obtain ⟨x, hx, hp⟩ := List.countP_pos_iff.mp hpos
    have hr' : r < g.records.size := hr
    have hrecord : g.records.toList[r] = g.record r := by simp [record, hr']
    rw [hrecord] at hx
    obtain ⟨hlive, hmem⟩ := Record.mem_claims.mp hx
    exact ⟨r, x, hlive, hmem, hp⟩

namespace Accounts

theorem node_live (h : g.Accounts ext) (hmem : .node n ∈ ext) : 0 < (g.cell n).owners := by
  have := h.nodes n
  have := countP_pos_of_mem hmem
  omega

theorem record_live (h : g.Accounts ext) (hmem : .record r ∈ ext) : 0 < (g.record r).owners := by
  have := h.records r
  have := countP_pos_of_mem hmem
  omega

theorem dependency_live (h : g.Accounts ext) (hn : 0 < (g.cell n).owners) (hd : m ∈ g.dependencies n) :
    0 < (g.cell m).owners := by
  have hmem : Hold.node m ∈ (g.node n).holds := by
    rw [Node.holds_eq]
    exact List.mem_append_left _ (List.mem_map_of_mem hd)
  have := tally_pos_of_node hn hmem
  have := h.nodes m
  omega

/-- Nobody counts more holds than before, and live nodes still listen to what they read. -/
theorem move (h : g.Accounts ext)
    (hcells : ∀ n, (g'.cell n).owners = (g.cell n).owners ∧ (g'.cell n).listeners = (g.cell n).listeners)
    (hrecords : ∀ r, (g'.record r).owners = (g.record r).owners)
    (htally : ∀ p, g'.tally p + ext'.countP p ≤ g.tally p + ext.countP p)
    (hnodes : ∀ n, 0 < (g.cell n).owners → (∀ t ∈ (g'.node n).tickets, g.Registered t (.node n)) ∧
      (g'.node n).tickets.map Ticket.source = g'.dependencies n) :
    g'.Accounts ext' where
  nodes n := by
    rw [(hcells n).1]
    exact Nat.le_trans (htally _) (h.nodes n)
  records r := by
    rw [hrecords]
    exact Nat.le_trans (htally _) (h.records r)
  places source slot := Nat.le_trans (htally _) (h.places source slot)
  registered t ht := by
    obtain ⟨l, hl⟩ := h.registered t (Nat.lt_of_lt_of_le ht (htally _))
    refine ⟨l, ?_⟩
    rw [Registered, (hcells _).2]
    exact hl
  arenas n := by
    rw [(hcells n).2]
    exact h.arenas n
  listens n t hn ht := by
    rw [(hcells n).1] at hn
    rw [Registered, (hcells _).2]
    exact (hnodes n hn).1 t ht
  sources n hn := by
    rw [(hcells n).1] at hn
    exact (hnodes n hn).2

theorem node_listens (h : g.Accounts ext) (hn : 0 < (g.cell n).owners) :
    (∀ t ∈ (g.node n).tickets, g.Registered t (.node n)) ∧
      (g.node n).tickets.map Ticket.source = g.dependencies n :=
  ⟨fun t ht => h.listens n t hn ht, h.sources n hn⟩

theorem mono (h : g.Accounts ext) (hext : ∀ p, ext'.countP p ≤ ext.countP p) : g.Accounts ext' :=
  h.move (fun _ => ⟨rfl, rfl⟩) (fun _ => rfl) (fun p => Nat.add_le_add_left (hext p) _)
    fun _ hn => h.node_listens hn

theorem perm (h : g.Accounts ext) (hext : ext.Perm ext') : g.Accounts ext' :=
  h.mono fun p => Nat.le_of_eq (hext.countP_eq p).symm

/-- A change to a node that nobody has to do with but the node itself. -/
theorem modifyCell {f : Cell → Cell} (h : g.Accounts ext)
    (howners : ∀ c, (f c).owners = c.owners) (hlisteners : ∀ c, (f c).listeners = c.listeners)
    (hnode : ∀ c, (f c).node = c.node) : (g.modifyCell n f).Accounts ext := by
  have hnodes := cell_modifyCell_congr (g := g) (n := n) Cell.node hnode
  refine h.move (fun m => ⟨cell_modifyCell_congr Cell.owners howners m,
    cell_modifyCell_congr Cell.listeners hlisteners m⟩) (fun _ => rfl) (fun p => ?_) fun m hm => ?_
  · have htally : (g.modifyCell n f).tally p = g.tally p := tally_modifyCell_eq fun c => by
      rw [Cell.claims, Cell.claims, howners, hnode]
    exact Nat.add_le_add_right (Nat.le_of_eq htally) _
  · rw [node, dependencies, node, hnodes]
    exact h.node_listens hm

end Accounts

end Graph

end FormulaGraph
