import FormulaGraph.Proofs.Accounts

/-! Holding, giving up, listening and adding nodes keep the books. -/

namespace FormulaGraph

namespace Graph

variable {g : Graph} {ext holds : List Hold} {n m : NodeId} {r : RecordId} {t : Ticket}

theorem tally_setOwners {k : Nat} (hk : (g.cell n).owners = k + 1) (p : Hold → Bool) :
    (g.setOwners n k).tally p + (g.freed n k).countP p = g.tally p := by
  have hn : n < g.cells.size := lt_size_of_owners_pos (by omega)
  have h := tally_modifyCell (f := fun c => { c with owners := k }) (p := p) hn
  simp only [Cell.claims, hk] at h
  rw [setOwners, freed, node]
  by_cases hz : k = 0
  · simp [hz] at h ⊢
    omega
  · simp [hz] at h ⊢
    omega

theorem tally_setRecordOwners {k : Nat} (hk : (g.record r).owners = k + 1) (p : Hold → Bool) :
    (g.setRecordOwners r k).tally p + (g.freedRecord r k).countP p = g.tally p := by
  have hr : r < g.records.size := lt_records_size_of_owners_pos (by omega)
  have h := tally_modifyRecord (f := fun c => { c with owners := k }) (p := p) hr
  simp only [Record.claims, hk] at h
  rw [setRecordOwners, freedRecord]
  by_cases hz : k = 0
  · simp [hz, Record.holds] at h ⊢
    omega
  · simp [hz, Record.holds] at h ⊢
    omega

theorem owners_setOwners {k : Nat} (hn : n < g.cells.size) (m : NodeId) :
    ((g.setOwners n k).cell m).owners = if m = n then k else (g.cell m).owners := by
  rw [setOwners, cell_modifyCell]
  by_cases hm : m = n <;> simp [hm, hn]

theorem owners_setRecordOwners {k : Nat} (hr : r < g.records.size) (s : RecordId) :
    ((g.setRecordOwners r k).record s).owners = if s = r then k else (g.record s).owners := by
  rw [setRecordOwners, record_modifyRecord]
  by_cases hs : s = r <;> simp [hs, hr]

theorem listeners_setOwners {k : Nat} (m : NodeId) :
    ((g.setOwners n k).cell m).listeners = (g.cell m).listeners := by
  rw [setOwners]
  exact cell_modifyCell_congr Cell.listeners (by exact fun _ => rfl) m

theorem node_setOwners {k : Nat} (m : NodeId) : (g.setOwners n k).node m = g.node m := by
  rw [setOwners]
  exact cell_modifyCell_congr Cell.node (by exact fun _ => rfl) m

namespace Accounts

/-- The last hold given up gives up what the node held. -/
theorem setOwners {k : Nat} (h : g.Accounts (.node n :: ext)) (hk : (g.cell n).owners = k + 1) :
    (g.setOwners n k).Accounts (g.freed n k ++ ext) := by
  have hn : n < g.cells.size := lt_size_of_owners_pos (by omega)
  have htally : ∀ p, (g.setOwners n k).tally p + (g.freed n k ++ ext).countP p =
      g.tally p + ext.countP p := by
    intro p
    have := tally_setOwners hk p
    rw [List.countP_append]
    omega
  have hext : ∀ p, ext.countP p ≤ (.node n :: ext : List Hold).countP p := fun p => by
    rw [List.countP_cons]
    omega
  have hlive : ∀ m, 0 < ((g.setOwners n k).cell m).owners → 0 < (g.cell m).owners := by
    intro m hm
    rw [owners_setOwners hn] at hm
    split at hm
    next he => rw [he]; omega
    · exact hm
  exact
    { nodes := fun m => by
        have hm := h.nodes m
        rw [htally, owners_setOwners hn]
        rw [List.countP_cons] at hm
        split
        next he =>
          rw [he] at hm ⊢
          simp only [beq_self_eq_true, if_true] at hm
          omega
        · omega
      records := fun s => by
        have hs := h.records s
        rw [htally]
        exact Nat.le_trans (Nat.add_le_add_left (hext _) _) hs
      places := fun source slot => by
        rw [htally]
        exact Nat.le_trans (Nat.add_le_add_left (hext _) _) (h.places source slot)
      registered := fun t ht => by
        rw [htally] at ht
        obtain ⟨l, hl⟩ := h.registered t (Nat.lt_of_lt_of_le ht (Nat.add_le_add_left (hext _) _))
        refine ⟨l, ?_⟩
        rw [Registered, listeners_setOwners]
        exact hl
      arenas := fun m => by
        rw [listeners_setOwners]
        exact h.arenas m
      listens := fun m t hm ht => by
        rw [node_setOwners] at ht
        rw [Registered, listeners_setOwners]
        exact h.listens m t (hlive m hm) ht
      sources := fun m hm => by
        rw [dependencies, node_setOwners]
        exact h.sources m (hlive m hm) }

theorem setRecordOwners {k : Nat} (h : g.Accounts (.record r :: ext))
    (hk : (g.record r).owners = k + 1) :
    (g.setRecordOwners r k).Accounts (g.freedRecord r k ++ ext) := by
  have hr : r < g.records.size := lt_records_size_of_owners_pos (by omega)
  have htally : ∀ p, (g.setRecordOwners r k).tally p + (g.freedRecord r k ++ ext).countP p =
      g.tally p + ext.countP p := by
    intro p
    have := tally_setRecordOwners hk p
    rw [List.countP_append]
    omega
  have hext : ∀ p, ext.countP p ≤ (.record r :: ext : List Hold).countP p := fun p => by
    rw [List.countP_cons]
    omega
  exact
    { nodes := fun m => by
        rw [htally]
        exact Nat.le_trans (Nat.add_le_add_left (hext _) _) (h.nodes m)
      records := fun s => by
        have hs := h.records s
        rw [htally, owners_setRecordOwners hr]
        rw [List.countP_cons] at hs
        split
        next he =>
          rw [he] at hs ⊢
          simp only [beq_self_eq_true, if_true] at hs
          omega
        · omega
      places := fun source slot => by
        rw [htally]
        exact Nat.le_trans (Nat.add_le_add_left (hext _) _) (h.places source slot)
      registered := fun t ht => by
        rw [htally] at ht
        exact h.registered t (Nat.lt_of_lt_of_le ht (Nat.add_le_add_left (hext _) _))
      arenas := h.arenas
      listens := h.listens
      sources := h.sources }

/-- Whoever else has a place at all has another one. -/
theorem ticket_ne (h : g.Accounts (.ticket t :: ext)) {t' : Ticket}
    (ht' : 0 < g.tally (· == .ticket t') + ext.countP (· == .ticket t')) :
    ¬ (t'.source = t.source ∧ t'.slot = t.slot) := by
  rintro ⟨hsource, hslot⟩
  have hplace := h.places t.source t.slot
  have himp : ∀ x : Hold, (x == .ticket t') = true → Hold.isAt t.source t.slot x = true := by
    intro x hx
    rw [beq_iff_eq.mp hx]
    simp [Hold.isAt, hsource, hslot]
  have hself : Hold.isAt t.source t.slot (.ticket t) = true := by simp [Hold.isAt]
  rw [List.countP_cons, if_pos hself] at hplace
  have := tally_mono (g := g) himp
  have := List.countP_mono_left (l := ext) fun x _ => himp x
  omega

theorem unsubscribe (h : g.Accounts (.ticket t :: ext)) : (g.unsubscribe t).Accounts ext := by
  have hext : ∀ p, ext.countP p ≤ (.ticket t :: ext : List Hold).countP p := fun p => by
    rw [List.countP_cons]
    omega
  have hself : 0 < g.tally (· == .ticket t) + (.ticket t :: ext : List Hold).countP (· == .ticket t) := by
    rw [List.countP_cons, if_pos (beq_self_eq_true _)]
    omega
  obtain ⟨l, hl⟩ := h.registered t hself
  obtain ⟨harena, hkept⟩ := (h.arenas t.source).remove hl
  rw [Graph.unsubscribe]
  split
  next hlive =>
    have hsource : t.source < g.cells.size := lt_size_of_owners_pos (by simpa [isLive] using hlive)
    generalize hg' : g.modifyCell t.source (fun c =>
      { c with listeners := c.listeners.remove t.slot t.generation }) = g'
    have howners : ∀ m, (g'.cell m).owners = (g.cell m).owners := fun m => by
      rw [← hg']
      exact cell_modifyCell_congr Cell.owners (by exact fun _ => rfl) m
    have hnode : ∀ m, g'.node m = g.node m := fun m => by
      rw [← hg']
      exact cell_modifyCell_congr Cell.node (by exact fun _ => rfl) m
    have htally : ∀ p, g'.tally p = g.tally p := fun p => by
      rw [← hg', tally_modifyCell_eq (by exact fun _ => rfl)]
    have hregistered : ∀ t' l', ¬ (t'.source = t.source ∧ t'.slot = t.slot) → g.Registered t' l' →
        g'.Registered t' l' := by
      intro t' l' hne hl'
      rw [Registered, ← hg', cell_modifyCell]
      split
      next he =>
        rw [Registered, he.1] at hl'
        exact hkept _ _ _ (fun hslot => hne ⟨he.1, hslot⟩) hl'
      · exact hl'
    exact
      { nodes := fun m => by
          rw [htally, howners]
          exact Nat.le_trans (Nat.add_le_add_left (hext _) _) (h.nodes m)
        records := fun r => by
          rw [htally, ← hg']
          exact Nat.le_trans (Nat.add_le_add_left (hext _) _) (h.records r)
        places := fun source slot => by
          rw [htally]
          exact Nat.le_trans (Nat.add_le_add_left (hext _) _) (h.places source slot)
        registered := fun t' ht' => by
          rw [htally] at ht'
          obtain ⟨l', hl'⟩ :=
            h.registered t' (Nat.lt_of_lt_of_le ht' (Nat.add_le_add_left (hext _) _))
          exact ⟨l', hregistered t' l' (h.ticket_ne ht') hl'⟩
        arenas := fun m => by
          rw [← hg', cell_modifyCell]
          split
          · exact harena
          · exact h.arenas m
        listens := fun m t' hm ht' => by
          rw [howners] at hm
          rw [hnode] at ht'
          have hmem : Hold.ticket t' ∈ (g.node m).holds := by
            rw [Node.holds_eq]
            exact List.mem_append_right _ (List.mem_map_of_mem ht')
          have hpos := tally_pos_of_node hm hmem
          exact hregistered t' _ (h.ticket_ne (by omega)) (h.listens m t' hm ht')
        sources := fun m hm => by
          rw [howners] at hm
          rw [dependencies, hnode]
          exact h.sources m hm }
  · exact h.mono hext

theorem release (h : g.Accounts (holds ++ ext)) : (g.release holds).Accounts ext := by
  fun_induction Graph.release g holds with
  | case1 g => exact h
  | case2 g n rest hz ih =>
    have := h.node_live List.mem_cons_self
    omega
  | case3 g n rest left hk more ih =>
    have hstep : (g.setOwners n left).Accounts (more ++ (rest ++ ext)) := h.setOwners hk
    rw [← List.append_assoc] at hstep
    exact ih hstep
  | case4 g r rest hz ih =>
    have := h.record_live List.mem_cons_self
    omega
  | case5 g r rest left hk more ih =>
    have hstep : (g.setRecordOwners r left).Accounts (more ++ (rest ++ ext)) := h.setRecordOwners hk
    rw [← List.append_assoc] at hstep
    exact ih hstep
  | case6 g t rest ih => exact ih h.unsubscribe

end Accounts

end Graph

end FormulaGraph
