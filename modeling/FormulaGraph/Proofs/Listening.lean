import FormulaGraph.Proofs.Holding

/-! New holds and new nodes. Whoever asks for a hold or a place has it afterwards, and nobody else loses
any. -/

namespace FormulaGraph

namespace Graph

variable {g : Graph} {ext : List Hold} {n m : NodeId} {r : RecordId} {t : Ticket} {l : Listener}

theorem exists_of_tally_pos {p : Hold → Bool} (h : 0 < g.tally p) :
    ∃ x, p x = true ∧ 0 < g.tally (· == x) := by
  rcases exists_holder h with ⟨n, x, hn, hmem, hx⟩ | ⟨r, x, hr, hmem, hx⟩
  · exact ⟨x, hx, tally_pos_of_node hn hmem⟩
  · exact ⟨x, hx, tally_pos_of_record hr hmem⟩

theorem listening_of_registered (h : g.Registered t l) (hl : g.hears l = true) :
    l ∈ g.listening t.source :=
  List.mem_filter.mpr ⟨Arena.Holds.mem_listeners h, hl⟩

theorem cell_addCell (node : Node) (cache : Option Value) (m : NodeId) :
    (g.addCell node cache).2.cell m = if m = g.cells.size then
      { node, cache, dirty := cache.isNone, owners := 1 } else g.cell m := by
  simp only [cell, addCell, Array.getElem?_push]
  split <;> rfl

theorem live_addCell {node : Node} {cache : Option Value} {m : NodeId} (hm : m = g.cells.size) :
    0 < ((g.addCell node cache).2.cell m).owners := by
  rw [cell_addCell, if_pos hm]
  exact Nat.one_pos

theorem cell_size : g.cell g.cells.size = Cell.absent := by simp [cell]

theorem tally_retain (hn : 0 < (g.cell n).owners) (p : Hold → Bool) : (g.retain (.node n)).tally p = g.tally p := by
  have := tally_modifyCell (f := fun c => { c with owners := (g.cell n).owners + 1 }) (p := p)
    (lt_size_of_owners_pos hn)
  simp only [Cell.claims] at this
  rw [if_neg (by omega), if_neg (by omega)] at this
  rw [retain, setOwners]
  omega

theorem tally_subscribe (l : Listener) (p : Hold → Bool) : (g.subscribe n l).2.tally p = g.tally p := by
  rw [subscribe]
  exact tally_modifyCell_eq (by exact fun _ => rfl)

namespace Accounts

theorem retain_node (h : g.Accounts ext) (hn : 0 < (g.cell n).owners) :
    (g.retain (.node n)).Accounts (.node n :: ext) := by
  have hlt := lt_size_of_owners_pos hn
  have htally : ∀ p, (g.setOwners n ((g.cell n).owners + 1)).tally p = g.tally p := tally_retain hn
  have hlive : ∀ m, 0 < ((g.setOwners n ((g.cell n).owners + 1)).cell m).owners →
      0 < (g.cell m).owners := by
    intro m hm
    rw [owners_setOwners hlt] at hm
    split at hm
    next he => rwa [he]
    · exact hm
  have hne : ∀ p : Hold → Bool, p (.node n) = false →
      (.node n :: ext : List Hold).countP p = ext.countP p := fun p hp => by
    rw [List.countP_cons, hp]
    rfl
  rw [Graph.retain]
  exact
    { nodes := fun m => by
        have hm := h.nodes m
        rw [htally, owners_setOwners hlt, List.countP_cons]
        by_cases he : m = n
        · rw [he] at hm ⊢
          rw [if_pos (beq_self_eq_true _), if_pos rfl]
          omega
        · have hfalse : ¬ (Hold.node n == .node m) = true := by simpa using Ne.symm he
          rw [if_neg hfalse, if_neg he]
          exact hm
      records := fun s => by
        rw [htally, hne _ rfl]
        exact h.records s
      places := fun source slot => by
        rw [htally, hne _ rfl]
        exact h.places source slot
      registered := fun t ht => by
        rw [htally, hne _ rfl] at ht
        obtain ⟨l, hl⟩ := h.registered t ht
        refine ⟨l, ?_⟩
        rw [Registered, listeners_setOwners]
        exact hl
      arenas := fun m => by
        rw [listeners_setOwners]
        exact h.arenas m
      listens := fun m t hm ht => by
        rw [node_setOwners] at ht
        rw [Registered, listeners_setOwners]
        exact h.listens m t (hlive m hm) ht
      sources := fun m hm => by
        rw [dependencies, node_setOwners]
        exact h.sources m (hlive m hm) }

theorem retain_record (h : g.Accounts ext) (hr : 0 < (g.record r).owners) :
    (g.retain (.record r)).Accounts (.record r :: ext) := by
  have hlt := lt_records_size_of_owners_pos hr
  have htally : ∀ p, (g.setRecordOwners r ((g.record r).owners + 1)).tally p = g.tally p := by
    intro p
    have := tally_modifyRecord (f := fun c => { c with owners := (g.record r).owners + 1 }) (p := p) hlt
    simp only [Record.claims] at this
    rw [if_neg (by omega), if_neg (by omega)] at this
    rw [Graph.setRecordOwners]
    simp only [Record.holds] at this
    omega
  have hne : ∀ p : Hold → Bool, p (.record r) = false →
      (.record r :: ext : List Hold).countP p = ext.countP p := fun p hp => by
    rw [List.countP_cons, hp]
    rfl
  rw [Graph.retain]
  exact
    { nodes := fun m => by
        rw [htally, hne _ rfl]
        exact h.nodes m
      records := fun s => by
        have hs := h.records s
        rw [htally, owners_setRecordOwners hlt, List.countP_cons]
        by_cases he : s = r
        · rw [he] at hs ⊢
          rw [if_pos (beq_self_eq_true _), if_pos rfl]
          omega
        · have hfalse : ¬ (Hold.record r == .record s) = true := by simpa using Ne.symm he
          rw [if_neg hfalse, if_neg he]
          exact hs
      places := fun source slot => by
        rw [htally, hne _ rfl]
        exact h.places source slot
      registered := fun t ht => by
        rw [htally, hne _ rfl] at ht
        exact h.registered t ht
      arenas := h.arenas
      listens := h.listens
      sources := h.sources }

/-- A place that is taken is counted nowhere before. -/
theorem isAt_eq_zero (h : g.Accounts ext) {source : NodeId} {slot : Nat}
    (hempty : ∀ generation l, ¬ (g.cell source).listeners.Holds slot generation l) :
    g.tally (Hold.isAt source slot) + ext.countP (Hold.isAt source slot) = 0 := by
  have hnone : ∀ x : Hold, Hold.isAt source slot x = true →
      ¬ 0 < g.tally (· == x) + ext.countP (· == x) := by
    intro x hx hpos
    cases x with
    | node | record => cases hx
    | ticket t =>
      have hat : t.source = source ∧ t.slot = slot := by simpa [Hold.isAt] using hx
      obtain ⟨l, hl⟩ := h.registered t hpos
      rw [Registered, hat.1, hat.2] at hl
      exact hempty _ _ hl
  have htally : ¬ 0 < g.tally (Hold.isAt source slot) := by
    intro hpos
    obtain ⟨x, hx, hposx⟩ := exists_of_tally_pos hpos
    exact hnone x hx (by omega)
  have hext : ¬ 0 < ext.countP (Hold.isAt source slot) := by
    intro hpos
    obtain ⟨x, hmem, hx⟩ := List.countP_pos_iff.mp hpos
    have := countP_pos_of_mem hmem
    exact hnone x hx (by omega)
  omega

theorem subscribe (h : g.Accounts ext) (hn : n < g.cells.size) (l : Listener) :
    (g.subscribe n l).2.Accounts (.ticket (g.subscribe n l).1 :: ext) ∧
      (g.subscribe n l).2.Registered (g.subscribe n l).1 l ∧
      ∀ t' l', g.Registered t' l' → (g.subscribe n l).2.Registered t' l' := by
  obtain ⟨harena, hplace, hempty, hkept⟩ := (h.arenas n).insert l
  generalize hi : (g.cell n).listeners.insert l = inserted at harena hplace hempty hkept
  have he : g.subscribe n l = (⟨n, inserted.1.1, inserted.1.2⟩,
      g.modifyCell n fun c => { c with listeners := inserted.2 }) := by
    rw [Graph.subscribe, hi]
  rw [he]
  generalize hg' : (g.modifyCell n fun c => { c with listeners := inserted.2 }) = g'
  have howners : ∀ m, (g'.cell m).owners = (g.cell m).owners := fun m => by
    rw [← hg']
    exact cell_modifyCell_congr Cell.owners (by exact fun _ => rfl) m
  have hnode : ∀ m, g'.node m = g.node m := fun m => by
    rw [← hg']
    exact cell_modifyCell_congr Cell.node (by exact fun _ => rfl) m
  have htally : ∀ p, g'.tally p = g.tally p := fun p => by
    rw [← hg', tally_modifyCell_eq (by exact fun _ => rfl)]
  have hself : g'.Registered ⟨n, inserted.1.1, inserted.1.2⟩ l := by
    rw [Registered, ← hg', cell_modifyCell_self hn]
    exact hplace
  have hregistered : ∀ t' l', g.Registered t' l' → g'.Registered t' l' := by
    intro t' l' hl'
    rw [Registered, ← hg', cell_modifyCell]
    split
    next hm =>
      rw [Registered, hm.1] at hl'
      exact hkept _ _ _ hl'
    · exact hl'
  have hne : ∀ p : Hold → Bool, p (.ticket ⟨n, inserted.1.1, inserted.1.2⟩) = false →
      (.ticket ⟨n, inserted.1.1, inserted.1.2⟩ :: ext : List Hold).countP p = ext.countP p :=
    fun p hp => by
      rw [List.countP_cons, hp]
      rfl
  refine ⟨?_, hself, hregistered⟩
  exact
    { nodes := fun m => by
        rw [htally, hne _ rfl, howners]
        exact h.nodes m
      records := fun s => by
        rw [htally, hne _ rfl, ← hg']
        exact h.records s
      places := fun source slot => by
        rw [htally]
        by_cases hat : Hold.isAt source slot (.ticket ⟨n, inserted.1.1, inserted.1.2⟩) = true
        · have hsame : n = source ∧ inserted.1.1 = slot := by simpa [Hold.isAt] using hat
          rw [List.countP_cons, if_pos hat, ← hsame.1, ← hsame.2]
          have := h.isAt_eq_zero hempty
          omega
        · rw [hne _ (Bool.eq_false_iff.mpr hat)]
          exact h.places source slot
      registered := fun t' ht' => by
        rw [htally] at ht'
        by_cases hsame : Hold.ticket ⟨n, inserted.1.1, inserted.1.2⟩ = .ticket t'
        · cases hsame
          exact ⟨l, hself⟩
        · rw [hne _ (by simpa using hsame)] at ht'
          obtain ⟨l', hl'⟩ := h.registered t' ht'
          exact ⟨l', hregistered t' l' hl'⟩
      arenas := fun m => by
        rw [← hg', cell_modifyCell]
        split
        · exact harena
        · exact h.arenas m
      listens := fun m t' hm ht' => by
        rw [howners] at hm
        rw [hnode] at ht'
        exact hregistered t' _ (h.listens m t' hm ht')
      sources := fun m hm => by
        rw [howners] at hm
        rw [dependencies, hnode]
        exact h.sources m hm }

/-- A new node takes over what it holds. -/
theorem addCell {node : Node} {cache : Option Value} (h : g.Accounts (node.holds ++ ext))
    (hlistens : ∀ t ∈ node.tickets, g.Registered t (.node g.cells.size))
    (hsources : node.tickets.map Ticket.source = node.dependencies) :
    (g.addCell node cache).2.Accounts (.node g.cells.size :: ext) := by
  have howners : ∀ m, m ≠ g.cells.size →
      ((g.addCell node cache).2.cell m).owners = (g.cell m).owners := fun m hm => by
    rw [cell_addCell, if_neg hm]
  have hnew := h.nodes g.cells.size
  rw [cell_size] at hnew
  have hlisteners : ∀ m, ((g.addCell node cache).2.cell m).listeners = (g.cell m).listeners := by
    intro m
    rw [cell_addCell]
    split
    next hm => rw [hm, cell_size]; rfl
    · rfl
  have hne : ∀ p : Hold → Bool, p (.node g.cells.size) = false →
      (.node g.cells.size :: ext : List Hold).countP p = ext.countP p := fun p hp => by
    rw [List.countP_cons, hp]
    rfl
  exact
    { nodes := fun m => by
        rw [tally_addCell, List.countP_cons]
        by_cases hm : m = g.cells.size
        · rw [hm, if_pos (beq_self_eq_true _), cell_addCell, if_pos rfl]
          rw [List.countP_append] at hnew
          simp only [Cell.absent] at hnew
          show _ ≤ 1
          omega
        · have hfalse : ¬ (Hold.node g.cells.size == .node m) = true := by simpa using Ne.symm hm
          have hold := h.nodes m
          rw [List.countP_append] at hold
          rw [if_neg hfalse, howners m hm]
          omega
      records := fun s => by
        have hold := h.records s
        rw [List.countP_append] at hold
        rw [tally_addCell, hne _ rfl]
        exact Nat.le_trans (by omega) hold
      places := fun source slot => by
        have hold := h.places source slot
        rw [List.countP_append] at hold
        rw [tally_addCell, hne _ rfl]
        omega
      registered := fun t ht => by
        rw [tally_addCell, hne _ rfl] at ht
        obtain ⟨l, hl⟩ := h.registered t (by rw [List.countP_append]; omega)
        refine ⟨l, ?_⟩
        rw [Registered, hlisteners]
        exact hl
      arenas := fun m => by
        rw [hlisteners]
        exact h.arenas m
      listens := fun m t hm ht => by
        rw [Registered, hlisteners]
        rw [Graph.node, cell_addCell] at ht
        by_cases he : m = g.cells.size
        · rw [if_pos he] at ht
          rw [he]
          exact hlistens t ht
        · rw [if_neg he] at ht
          rw [howners m he] at hm
          exact h.listens m t hm ht
      sources := fun m hm => by
        rw [dependencies, Graph.node, cell_addCell]
        by_cases he : m = g.cells.size
        · rw [if_pos he]
          exact hsources
        · rw [if_neg he]
          rw [howners m he] at hm
          exact h.sources m hm }

end Accounts

end Graph

end FormulaGraph
