import FormulaGraph.Proofs.Acyclic
import FormulaGraph.Proofs.Balancing

/-! Who is left. Where as many holds as before are had by nobody, and those who were left and are left hold the same,
nobody has gone and nobody has come: someone who had would have been held by someone else who had. -/

namespace FormulaGraph

open FormulaGraph.Graph

namespace Graph

variable {g g' : Graph} {ext : List Hold} {n m d : NodeId} {p : Hold → Bool}

theorem uses_of_mem_holds (h : .node d ∈ (g.node n).holds) : g.Uses n d := by
  rw [Node.holds_eq, List.mem_append] at h
  rcases h with h | h
  · obtain ⟨m, hm, he⟩ := List.mem_map.mp h
    cases he
    exact hm
  · obtain ⟨t, -, he⟩ := List.mem_map.mp h
    cases he

/-- Who was left is left, by induction from those that nothing reads: someone who had gone would be held by a
record, which has not changed, or by someone who is left. -/
theorem live_of_spare (ho : g.Orderly) (ha' : g'.Accounts ext)
    (hrecords : g'.records = g.records) (hspare : g'.spare ext = g.spare ext)
    (hholds : ∀ n, 0 < (g.cell n).owners → 0 < (g'.cell n).owners → (g'.node n).holds = (g.node n).holds)
    (hm : 0 < (g.cell m).owners) : 0 < (g'.cell m).owners := by
  obtain ⟨rank, hbound, hfalls⟩ := ho.exists_rank
  generalize hk : g.cells.size - rank m = k
  induction k using Nat.strongRecOn generalizing m with
  | ind k ih =>
    by_contra hgone
    have hheld : 0 < g.tally (· == .node m) := by
      have hsame := congrFun hspare m
      have := ha'.nodes m
      rw [spare, spare] at hsame
      omega
    refine Nat.lt_irrefl 0 (Nat.lt_of_lt_of_le (m := g'.tally (· == .node m)) ?_ ?_)
    · rcases exists_holder hheld with ⟨n, x, hn, hmem, hx⟩ | ⟨r, x, hr, hmem, hx⟩
      · rw [beq_iff_eq.mp hx] at hmem
        have hlt := hfalls n m (uses_of_mem_holds hmem)
        have := hbound n (lt_size_of_owners_pos hn)
        have hn' := ih (g.cells.size - rank n) (by omega) hn rfl
        exact tally_pos_of_node hn' (by rwa [hholds n hn hn'])
      · rw [record, ← hrecords] at hr hmem
        rw [beq_iff_eq.mp hx] at hmem
        exact tally_pos_of_record hr hmem
    · have := ha'.nodes m
      omega

theorem live_iff_of_spare (ha : g.Accounts ext) (ho : g.Orderly) (ha' : g'.Accounts ext) (ho' : g'.Orderly)
    (hrecords : g'.records = g.records) (hspare : g'.spare ext = g.spare ext)
    (hholds : ∀ n, 0 < (g.cell n).owners → (g'.node n).holds = (g.node n).holds) (m : NodeId) :
    0 < (g'.cell m).owners ↔ 0 < (g.cell m).owners :=
  ⟨live_of_spare ho' ha hrecords.symm hspare.symm fun n _ hn => (hholds n hn).symm,
    live_of_spare ho ha' hrecords hspare fun n hn _ => hholds n hn⟩

/-- Nodes that are not there hold nothing. -/
theorem total_claims {k : Nat} (h : g.cells.size ≤ k) :
    total ((List.range k).map fun m => (g.cell m).claims.countP p) =
      total (g.cells.toList.map fun c => c.claims.countP p) := by
  obtain ⟨j, rfl⟩ := Nat.exists_eq_add_of_le h
  have hnone : ∀ i, (g.cell (g.cells.size + i)).claims.countP p = 0 := fun i => by
    simp [cell, Cell.claims, Cell.absent]
  rw [List.range_add, List.map_append, total_append, toList_cells, List.map_map, List.map_map]
  refine Nat.add_eq_left.mpr ?_
  induction List.range j with
  | nil => rfl
  | cons i rest ih =>
    rw [List.map_cons, total, ih]
    exact hnone i

/-- The same is held if the same nodes are left, and hold the same. -/
theorem tally_of_live (hrecords : g'.records = g.records)
    (hlive : ∀ m, 0 < (g'.cell m).owners ↔ 0 < (g.cell m).owners)
    (hholds : ∀ n, 0 < (g.cell n).owners → (g'.node n).holds = (g.node n).holds) (p : Hold → Bool) :
    g'.tally p = g.tally p := by
  have hclaims : ∀ m, (g'.cell m).claims = (g.cell m).claims := fun m => by
    rw [Cell.claims, Cell.claims]
    by_cases hm : 0 < (g.cell m).owners
    · rw [if_neg (Nat.ne_of_gt hm), if_neg (Nat.ne_of_gt ((hlive m).mpr hm))]
      exact hholds m hm
    · rw [if_pos (Nat.eq_zero_of_not_pos hm), if_pos (Nat.eq_zero_of_not_pos fun hm' => hm ((hlive m).mp hm'))]
  rw [tally, tally, hrecords, ← total_claims (Nat.le_max_left g'.cells.size g.cells.size),
    ← total_claims (Nat.le_max_right g'.cells.size g.cells.size)]
  simp only [hclaims]

end Graph

end FormulaGraph
