import FormulaGraph.Proofs.Coherence
import FormulaGraph.Graph.Read

/-! The moves that reading a graph is made of keep it sound, and what was clean stays as it was. -/

namespace FormulaGraph

def Hold.isRecord : Hold → Bool
  | .record _ => true
  | _ => false

namespace Graph

variable {g g' : Graph} {ext holds : List Hold} {told : List NodeId} {n m : NodeId} {t : Ticket}
  {f : Cell → Cell}

theorem core_modifyCell (h : ∀ c, (f c).core = c.core) (m : NodeId) :
    ((g.modifyCell n f).cell m).core = (g.cell m).core :=
  cell_modifyCell_congr Cell.core h m

theorem core_setOwners {k : Nat} (m : NodeId) : ((g.setOwners n k).cell m).core = (g.cell m).core := by
  rw [setOwners]
  exact core_modifyCell (by exact fun _ => rfl) m

theorem core_unsubscribe (m : NodeId) : ((g.unsubscribe t).cell m).core = (g.cell m).core := by
  rw [unsubscribe]
  split
  · exact core_modifyCell (by exact fun _ => rfl) m
  · rfl

theorem core_subscribe (l : Listener) (m : NodeId) :
    ((g.subscribe n l).2.cell m).core = (g.cell m).core := by
  rw [subscribe]
  exact core_modifyCell (by exact fun _ => rfl) m

theorem owners_subscribe (l : Listener) (m : NodeId) :
    ((g.subscribe n l).2.cell m).owners = (g.cell m).owners := by
  rw [subscribe]
  exact cell_modifyCell_congr Cell.owners (by exact fun _ => rfl) m

/-- Giving up leaves everything alone but who holds and listens to what. -/
theorem core_release (m : NodeId) : ((g.release holds).cell m).core = (g.cell m).core := by
  fun_induction release g holds with
  | case1 => rfl
  | case2 g n rest hz ih => exact ih
  | case3 g n rest left hk more ih => exact ih.trans (core_setOwners m)
  | case4 g r rest hz ih => exact ih
  | case5 g r rest left hk more ih => exact ih
  | case6 g t rest ih => exact ih.trans (core_unsubscribe m)

theorem size_unsubscribe : (g.unsubscribe t).cells.size = g.cells.size := by
  rw [unsubscribe]
  split
  · exact size_modifyCell
  · rfl

theorem size_release : (g.release holds).cells.size = g.cells.size := by
  fun_induction release g holds with
  | case1 => rfl
  | case2 g n rest hz ih => exact ih
  | case3 g n rest left hk more ih => exact ih.trans size_modifyCell
  | case4 g r rest hz ih => exact ih
  | case5 g r rest left hk more ih => exact ih
  | case6 g t rest ih => exact ih.trans size_unsubscribe

theorem owners_unsubscribe (m : NodeId) : ((g.unsubscribe t).cell m).owners = (g.cell m).owners := by
  rw [unsubscribe]
  split
  · exact cell_modifyCell_congr Cell.owners (by exact fun _ => rfl) m
  · rfl

theorem owners_release_le (m : NodeId) : ((g.release holds).cell m).owners ≤ (g.cell m).owners := by
  fun_induction release g holds with
  | case1 => exact Nat.le_refl _
  | case2 g n rest hz ih => exact ih
  | case3 g n rest left hk more ih =>
    refine Nat.le_trans ih ?_
    rw [owners_setOwners (lt_size_of_owners_pos (by omega))]
    split
    next he => rw [he]; omega
    · exact Nat.le_refl _
  | case4 g r rest hz ih => exact ih
  | case5 g r rest left hk more ih => exact ih
  | case6 g t rest ih => exact Nat.le_trans ih (Nat.le_of_eq (owners_unsubscribe m))

theorem holds_no_record (node : Node) : ∀ x ∈ node.holds, x.isRecord = false := by
  intro x hx
  rw [Node.holds_eq, List.mem_append, List.mem_map, List.mem_map] at hx
  rcases hx with ⟨d, -, rfl⟩ | ⟨t, -, rfl⟩ <;> rfl

theorem records_release (h : ∀ x ∈ holds, x.isRecord = false) : (g.release holds).records = g.records := by
  fun_induction release g holds with
  | case1 => rfl
  | case2 g n rest hz ih => exact ih fun x hx => h x (List.mem_cons_of_mem _ hx)
  | case3 g n rest left hk more ih =>
    refine ih fun x hx => ?_
    rcases List.mem_append.mp hx with hx | hx
    · have hmore : more = g.freed n left := rfl
      rw [hmore, freed] at hx
      split at hx
      · exact holds_no_record _ x hx
      · cases hx
    · exact h x (List.mem_cons_of_mem _ hx)
  | case4 g r rest hz ih => exact ih fun x hx => h x (List.mem_cons_of_mem _ hx)
  | case5 g r rest left hk more ih => exact absurd (h _ List.mem_cons_self) (by simp [Hold.isRecord])
  | case6 g t rest ih =>
    rw [ih fun x hx => h x (List.mem_cons_of_mem _ hx), unsubscribe]
    split <;> rfl

theorem grows_release (h : ∀ x ∈ holds, x.isRecord = false) : g.Grows (g.release holds) :=
  .of_core (records_release h) (Nat.le_of_eq size_release.symm) fun m _ _ => core_release m

theorem grows_release_node : g.Grows (g.release [.node n]) :=
  grows_release (by simp [Hold.isRecord])

/-- Nodes, caches and marks of the live nodes decide on coherence. -/
theorem Coherent.of_eq (h : g.Coherent told) (hnode : ∀ m, g'.node m = g.node m)
    (hcache : ∀ m, (g'.cell m).cache = (g.cell m).cache)
    (hdirty : ∀ m, (g'.cell m).dirty = (g.cell m).dirty)
    (hlive : ∀ m, 0 < (g'.cell m).owners → 0 < (g.cell m).owners) : g'.Coherent told := by
  refine ⟨fun m hm hclean => ?_, fun m hm hclean hnot => ?_⟩
  · rw [hdirty] at hclean
    rw [hcache]
    exact h.cached m (hlive m hm) hclean
  · rw [hdirty] at hclean
    obtain ⟨hdeps, v, hv, hgiven⟩ := h.fresh m (hlive m hm) hclean hnot
    refine ⟨fun d hd => ?_, v, ?_, ?_⟩
    · rw [dependencies, hnode] at hd
      rw [hdirty]
      exact hdeps d hd
    · rw [hcache]
      exact hv
    · rw [given?_eq (hnode m) fun d _ => hcache d]
      exact hgiven

theorem Coherent.of_core (h : g.Coherent told) (hcore : ∀ m, (g'.cell m).core = (g.cell m).core)
    (hlive : ∀ m, 0 < (g'.cell m).owners → 0 < (g.cell m).owners) : g'.Coherent told :=
  h.of_eq (fun m => congrArg (·.1) (hcore m)) (fun m => congrArg (·.2.1) (hcore m))
    (fun m => congrArg (·.2.2.1) (hcore m)) hlive

namespace Sound

theorem release (h : g.Sound (holds ++ ext) told) : (g.release holds).Sound ext told :=
  ⟨h.accounts.release, h.coherent.of_core core_release fun m hm =>
    Nat.lt_of_lt_of_le hm (owners_release_le m)⟩

theorem release_node (h : g.Sound (.node n :: ext) told) : (g.release [.node n]).Sound ext told := by
  have h' : g.Sound ([.node n] ++ ext) told := h
  exact h'.release

theorem mono (h : g.Sound ext told) {ext' : List Hold} (hext : ∀ p, ext'.countP p ≤ ext.countP p) :
    g.Sound ext' told :=
  ⟨h.accounts.mono hext, h.coherent⟩

theorem perm (h : g.Sound ext told) {ext' : List Hold} (hext : ext.Perm ext') : g.Sound ext' told :=
  ⟨h.accounts.perm hext, h.coherent⟩

theorem retain_node (h : g.Sound ext told) (hn : 0 < (g.cell n).owners) :
    (g.retain (.node n)).Sound (.node n :: ext) told := by
  refine ⟨h.accounts.retain_node hn, h.coherent.of_core (fun m => core_setOwners m) fun m hm => ?_⟩
  rw [Graph.retain, owners_setOwners (lt_size_of_owners_pos hn)] at hm
  split at hm
  next he => rwa [he]
  · exact hm

end Sound

theorem grows_retain_node : g.Grows (g.retain (.node n)) :=
  .of_core rfl (Nat.le_of_eq size_modifyCell.symm) fun m _ _ => core_setOwners m

theorem size_addCell (node : Node) (cache : Option Value) :
    (g.addCell node cache).2.cells.size = g.cells.size + 1 := by
  simp [addCell]

theorem grows_addCell (node : Node) (cache : Option Value) : g.Grows (g.addCell node cache).2 := by
  refine .of_core rfl ?_ fun m _ hm => ?_
  · rw [size_addCell]
    exact Nat.le_succ _
  · rw [cell_addCell, if_neg (Nat.ne_of_lt hm)]

namespace Sound

/-- A new node has its value or waits for it to be worked out. -/
theorem addCell {node : Node} {cache : Option Value} (h : g.Sound (node.holds ++ ext) told)
    (hlistens : ∀ t ∈ node.tickets, g.Registered t (.node g.cells.size))
    (hsources : node.tickets.map Ticket.source = node.dependencies)
    (hvalue : ∀ v, cache = some v → node = .constant v ∨ node = .input v) :
    (g.addCell node cache).2.Sound (.node g.cells.size :: ext) told := by
  refine ⟨h.accounts.addCell hlistens hsources, h.coherent.grows (grows_addCell node cache) ?_⟩
  intro m hm hclean
  by_cases he : m = g.cells.size
  · right
    have hcell := cell_addCell (g := g) node cache m
    rw [if_pos he] at hcell
    rw [hcell] at hclean
    cases cache with
    | none => cases hclean
    | some v =>
      refine ⟨fun d hd => ?_, v, by rw [hcell], ?_⟩
      · rw [dependencies, Graph.node, hcell] at hd
        rcases hvalue v rfl with hnode | hnode <;> rw [hnode] at hd <;> cases hd
      · rw [given?, Graph.node, hcell]
        rcases hvalue v rfl with hnode | hnode <;> rw [hnode]
  · left
    rw [cell_addCell, if_neg he] at hm hclean
    exact ⟨hm, hclean⟩

theorem addConstant (h : g.Sound ext told) (v : Value) :
    (g.addConstant v).2.Sound (.node (g.addConstant v).1 :: ext) told :=
  h.addCell (fun _ ht => nomatch ht) rfl fun w hw => .inl (by cases hw; rfl)

theorem addInput (h : g.Sound ext told) (v : Value) :
    (g.addInput v).2.Sound (.node (g.addInput v).1 :: ext) told :=
  h.addCell (fun _ ht => nomatch ht) rfl fun w hw => .inr (by cases hw; rfl)

theorem addExpression (h : g.Sound ext told) (r : RecordId) (text : String) :
    (g.addExpression r text).2.Sound (.node (g.addExpression r text).1 :: ext) told :=
  h.addCell (fun _ ht => nomatch ht) rfl fun _ hw => nomatch hw

theorem subscribe (h : g.Sound ext told) (hn : n < g.cells.size) (l : Listener) :
    (g.subscribe n l).2.Sound (.ticket (g.subscribe n l).1 :: ext) told :=
  ⟨(h.accounts.subscribe hn l).1, h.coherent.of_core (core_subscribe l) fun m hm => by
    rwa [owners_subscribe] at hm⟩

end Sound

theorem size_subscribe (l : Listener) : (g.subscribe n l).2.cells.size = g.cells.size := by
  rw [subscribe]
  exact size_modifyCell

theorem Sound.subscribeAll {sources : List NodeId} (h : g.Sound ext told)
    (hs : ∀ s ∈ sources, s < g.cells.size) (l : Listener) :
    (g.subscribeAll sources l).2.Sound ((g.subscribeAll sources l).1.map .ticket ++ ext) told ∧
      (∀ t ∈ (g.subscribeAll sources l).1, (g.subscribeAll sources l).2.Registered t l) ∧
      (g.subscribeAll sources l).1.map Ticket.source = sources ∧
      (∀ t l', g.Registered t l' → (g.subscribeAll sources l).2.Registered t l') := by
  induction sources generalizing g ext with
  | nil =>
    rw [Graph.subscribeAll]
    exact ⟨h, fun _ ht => (List.not_mem_nil ht).elim, rfl, fun _ _ hl => hl⟩
  | cons source sources ih =>
    have hsource := hs source List.mem_cons_self
    obtain ⟨-, hself, hkept⟩ := h.accounts.subscribe hsource l
    have hrest := ih (h.subscribe hsource l) fun s hmem => by
      rw [size_subscribe]
      exact hs s (List.mem_cons_of_mem _ hmem)
    rw [Graph.subscribeAll]
    refine ⟨hrest.1.perm List.perm_middle, fun t ht => ?_, ?_, fun t l' hl' => ?_⟩
    · cases ht with
      | head => exact hrest.2.2.2 _ _ hself
      | tail _ ht => exact hrest.2.1 t ht
    · exact congrArg (source :: ·) hrest.2.2.1
    · exact hrest.2.2.2 _ _ (hkept _ _ hl')

theorem owners_subscribeAll (sources : List NodeId) (l : Listener) (m : NodeId) :
    ((g.subscribeAll sources l).2.cell m).owners = (g.cell m).owners := by
  induction sources generalizing g with
  | nil => rfl
  | cons source sources ih => exact ih.trans (owners_subscribe l m)

theorem core_subscribeAll (sources : List NodeId) (l : Listener) (m : NodeId) :
    ((g.subscribeAll sources l).2.cell m).core = (g.cell m).core := by
  induction sources generalizing g with
  | nil => rfl
  | cons source sources ih => exact ih.trans (core_subscribe l m)

theorem grows_subscribeAll (sources : List NodeId) (l : Listener) :
    (g.subscribeAll sources l).2.cells.size = g.cells.size ∧ g.Grows (g.subscribeAll sources l).2 := by
  induction sources generalizing g with
  | nil => exact ⟨rfl, .refl g⟩
  | cons source sources ih =>
    rw [Graph.subscribeAll]
    obtain ⟨hsize, hgrows⟩ := ih (g := (g.subscribe source l).2)
    refine ⟨hsize.trans (size_subscribe l), GrowsOn.trans ?_ hgrows⟩
    exact .of_core rfl (Nat.le_of_eq (size_subscribe l).symm) fun m _ _ => core_subscribe l m

theorem Sound.addCalculation {operands : List NodeId} (h : g.Sound (operands.map Hold.node ++ ext) told)
    (operation : Operation) (offset : Nat) :
    (g.addCalculation operation operands offset).2.Sound
        (.node (g.addCalculation operation operands offset).1 :: ext) told ∧
      g.Grows (g.addCalculation operation operands offset).2 := by
  have hlive : ∀ s ∈ operands, s < g.cells.size := fun s hs =>
    lt_size_of_owners_pos (h.accounts.node_live (List.mem_append_left _ (List.mem_map_of_mem (f := Hold.node) hs)))
  obtain ⟨hsound, hself, hsources, -⟩ := h.subscribeAll hlive (.node g.cells.size)
  obtain ⟨hsize, hgrows⟩ := grows_subscribeAll (g := g) operands (.node g.cells.size)
  rw [Graph.addCalculation]
  generalize g.subscribeAll operands (.node g.cells.size) = r at hsound hself hsources hsize hgrows
  obtain ⟨tickets, g'⟩ := r
  have hperm : (tickets.map Hold.ticket ++ (operands.map Hold.node ++ ext)).Perm
      ((Node.calculation operation operands offset tickets).holds ++ ext) := by
    rw [Node.holds_eq, ← List.append_assoc]
    exact List.perm_append_comm.append_right ext
  refine ⟨?_, hgrows.trans (grows_addCell _ _)⟩
  refine (hsound.perm hperm).addCell (fun t ht => ?_) hsources fun _ hv => nomatch hv
  rw [hsize]
  exact hself t ht

end Graph

end FormulaGraph
