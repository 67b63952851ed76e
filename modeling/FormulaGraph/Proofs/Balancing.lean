import FormulaGraph.Proofs.Settling

/-! What is counted and nobody has. A read leaves that alone: each node that it makes is had by somebody or given
up again, whatever fails on the way. -/

namespace FormulaGraph

open FormulaGraph.Graph

namespace Graph

variable {g g' : Graph} {ext holds : List Hold} {told : List NodeId} {n m root : NodeId} {r : RecordId}
  {t : Ticket} {l : Listener} {scope : RecordId} {source : Source}

/-- How many of the holds that are counted for a node nobody has, if `ext` is what is held from outside. -/
def spare (g : Graph) (ext : List Hold) (m : NodeId) : Int :=
  (g.cell m).owners - (g.tally (· == .node m) + ext.countP (· == .node m) : Nat)

theorem spare_of_eq (howners : ∀ m, (g'.cell m).owners = (g.cell m).owners)
    (htally : ∀ p, g'.tally p = g.tally p) : g'.spare ext = g.spare ext := by
  funext m
  rw [spare, spare, howners, htally]

theorem spare_of_countP {ext' : List Hold} (h : ∀ m, ext'.countP (· == .node m) = ext.countP (· == .node m)) :
    g.spare ext' = g.spare ext := by
  funext m
  rw [spare, spare, h]

theorem spare_modifyCell {f : Cell → Cell} (howners : ∀ c, (f c).owners = c.owners)
    (hnode : ∀ c, (f c).node = c.node) : (g.modifyCell n f).spare ext = g.spare ext := by
  refine spare_of_eq (cell_modifyCell_congr Cell.owners howners) fun p => tally_modifyCell_eq fun c => ?_
  rw [Cell.claims, Cell.claims, howners, hnode]

theorem spare_setNode {node : Node} (h : node.holds = (g.node n).holds) :
    (g.modifyCell n fun c => { c with node }).spare ext = g.spare ext :=
  spare_of_eq (cell_modifyCell_congr Cell.owners (by exact fun _ => rfl)) (tally_setNode h)

theorem spare_setOwners {k : Nat} (hk : (g.cell n).owners = k + 1) :
    (g.setOwners n k).spare (g.freed n k ++ ext) = g.spare (.node n :: ext) := by
  funext m
  have htally := tally_setOwners hk (· == .node m)
  rw [spare, spare, owners_setOwners (lt_size_of_owners_pos (by omega)), List.countP_append, List.countP_cons]
  by_cases hm : m = n
  · subst hm
    rw [if_pos rfl, if_pos (beq_self_eq_true _)]
    omega
  · have hother : ¬ (Hold.node n == .node m) = true := by simpa using Ne.symm hm
    rw [if_neg hm, if_neg hother]
    omega

theorem spare_setRecordOwners {k : Nat} (hk : (g.record r).owners = k + 1) :
    (g.setRecordOwners r k).spare (g.freedRecord r k ++ ext) = g.spare (.record r :: ext) := by
  funext m
  have htally := tally_setRecordOwners hk (· == .node m)
  have hcell : (g.setRecordOwners r k).cell m = g.cell m := rfl
  have hother : ¬ (Hold.record r == .node m) = true := by simp
  rw [spare, spare, hcell, List.countP_append, List.countP_cons, if_neg hother]
  omega

theorem spare_ticket (t : Ticket) : g.spare (.ticket t :: ext) = g.spare ext :=
  spare_of_countP fun m => by simp

theorem spare_unsubscribe : (g.unsubscribe t).spare ext = g.spare ext := by
  refine spare_of_eq owners_unsubscribe fun p => ?_
  rw [unsubscribe]
  split
  · exact tally_modifyCell_eq (by exact fun _ => rfl)
  · rfl

/-- What is given up was counted, and what goes with it gives up what it had. -/
theorem spare_release (h : g.Accounts (holds ++ ext)) : (g.release holds).spare ext = g.spare (holds ++ ext) := by
  fun_induction release g holds with
  | case1 => rfl
  | case2 g n rest hz ih =>
    have := h.node_live List.mem_cons_self
    omega
  | case3 g n rest left hk more ih =>
    have hstep : (g.setOwners n left).Accounts (more ++ (rest ++ ext)) := h.setOwners hk
    rw [← List.append_assoc] at hstep
    rw [ih hstep, List.append_assoc]
    exact spare_setOwners hk
  | case4 g r rest hz ih =>
    have := h.record_live List.mem_cons_self
    omega
  | case5 g r rest left hk more ih =>
    have hstep : (g.setRecordOwners r left).Accounts (more ++ (rest ++ ext)) := h.setRecordOwners hk
    rw [← List.append_assoc] at hstep
    rw [ih hstep, List.append_assoc]
    exact spare_setRecordOwners hk
  | case6 g t rest ih =>
    rw [ih h.unsubscribe, spare_unsubscribe]
    exact (spare_ticket t).symm

theorem spare_retain (hn : 0 < (g.cell n).owners) : (g.retain (.node n)).spare (.node n :: ext) = g.spare ext := by
  funext m
  rw [spare, spare, tally_retain hn, retain, owners_setOwners (lt_size_of_owners_pos hn), List.countP_cons]
  by_cases hm : m = n
  · subst hm
    rw [if_pos rfl, if_pos (beq_self_eq_true _)]
    omega
  · have hother : ¬ (Hold.node n == .node m) = true := by simpa using Ne.symm hm
    rw [if_neg hm, if_neg hother]
    omega

/-- A new node takes over what it holds, and is had by whoever made it. -/
theorem spare_addCell (node : Node) (cache : Option Value) :
    (g.addCell node cache).2.spare (.node g.cells.size :: ext) = g.spare (node.holds ++ ext) := by
  funext m
  rw [spare, spare, tally_addCell, cell_addCell, List.countP_append, List.countP_cons]
  by_cases hm : m = g.cells.size
  · have hnew : (g.cell m).owners = 0 := by
      rw [hm, cell_size]
      rfl
    rw [if_pos hm, if_pos (beq_iff_eq.mpr (congrArg Hold.node hm.symm)), hnew]
    dsimp only
    omega
  · have hother : ¬ (Hold.node g.cells.size == .node m) = true := by simpa using Ne.symm hm
    rw [if_neg hm, if_neg hother]
    omega

theorem spare_subscribe : (g.subscribe n l).2.spare ext = g.spare ext :=
  spare_of_eq (owners_subscribe l) (tally_subscribe l)

theorem spare_subscribeAll (sources : List NodeId) : (g.subscribeAll sources l).2.spare ext = g.spare ext := by
  induction sources generalizing g with
  | nil => rfl
  | cons source sources ih => exact ih.trans spare_subscribe

theorem spare_addCalculation (operation : Operation) (operands : List NodeId) (offset : Nat) :
    (g.addCalculation operation operands offset).2.spare
        (.node (g.addCalculation operation operands offset).1 :: ext) = g.spare (operands.map .node ++ ext) := by
  rw [addCalculation]
  refine (spare_addCell _ _).trans (Eq.trans (spare_of_countP fun m => ?_) (spare_subscribeAll operands))
  have htickets : ∀ tickets : List Ticket, (tickets.map Hold.ticket).countP (· == .node m) = 0 := fun tickets =>
    List.countP_eq_zero.mpr fun x hx => by
      obtain ⟨t, -, rfl⟩ := List.mem_map.mp hx
      simp
  rw [Node.holds, List.countP_append, List.countP_append, List.countP_append, htickets, Nat.add_zero]

theorem spare_installTree (text : String) (h : g.Sound (.node root :: ext) told) (hn : 0 < (g.cell n).owners)
    (hnode : g.node n = .expression scope source) (hp : (g.node n).isPending = true) :
    ((installTree n scope text root source.tree?).run g).2.spare ext = g.spare (.node root :: ext) := by
  rw [run_installTree_eq_release, spare_release (replaceTree_sound text h hn hnode hp).accounts]
  funext m
  have htally := tally_replaceTree text root hn hnode (· == .node m)
  have howners : ((g.replaceTree n scope text root).cell m).owners = (g.cell m).owners :=
    (cell_modifyCell_congr Cell.owners (by exact fun _ => rfl) m).trans (owners_subscribe _ m)
  have hticket : ¬ (Hold.ticket (g.subscribe root (.node n)).1 == .node m) = true := by simp
  rw [List.countP_cons, List.countP_cons, if_neg hticket, List.countP_nil] at htally
  rw [spare, spare, howners, List.countP_append, List.countP_cons]
  omega

end Graph

/-- A read leaves nothing behind that nobody has. -/
def Balances (read : Reader) : Prop :=
  ∀ {g : Graph} {ext : List Hold} {told : List NodeId} {n : NodeId}, g.Sound ext told → g.Anchored ext n →
    ((read n).run.run g).2.spare ext = g.spare ext

section

variable {g g' : Graph} {ext : List Hold} {told : List NodeId} {n : NodeId} {scope : RecordId}
  {source : Source} {read : Reader}

theorem calculate_balances {operands : List NodeId} (hread : Reads read) (hbalances : Balances read)
    (h : g.Sound (operands.map .node ++ ext) told) (operation : Operation) (offset : Nat) :
    match ((graphBuilder read).calculate operation operands offset).run g with
    | (.ok n, g') => g'.spare (.node n :: ext) = g.spare (operands.map .node ++ ext)
    | (.error _, g') => g'.spare ext = g.spare (operands.map .node ++ ext) := by
  obtain ⟨hadded, -⟩ := h.addCalculation operation offset
  obtain ⟨hafter, -, -⟩ := hread hadded (.outside List.mem_cons_self)
  have hsame := (hbalances hadded (.outside List.mem_cons_self)).trans
    (spare_addCalculation operation operands offset)
  rw [run_calculate]
  generalize (read (g.addCalculation operation operands offset).1).run.run
    (g.addCalculation operation operands offset).2 = r at hafter hsame
  rcases r with ⟨e | v, g'⟩
  · exact (spare_release hafter.accounts).trans hsame
  · exact hsame

theorem graphBuilder_balances (hread : Reads read) (hbalances : Balances read) (g : Graph) (ext : List Hold)
    (told : List NodeId) :
    (graphBuilder read).Keeps
      (fun nodes g' => g.Holding ext told nodes g' ∧ g'.spare (nodes.map .node ++ ext) = g.spare ext)
      fun r => 0 < (g.record r).owners := by
  have hheld := graphBuilder_keeps hread g ext told
  exact
    { recount := fun {l l' s} hcount h => by
        refine ⟨hheld.recount hcount h.1, (spare_of_countP fun m => ?_).trans h.2⟩
        have := hcount ((· == Hold.node m) ∘ Hold.node)
        simp only [List.countP_append, List.countP_map]
        omega
      literal := fun v h => ⟨hheld.literal v h.1, (spare_addCell _ _).trans h.2⟩
      calculate := fun {arguments l s} operation offset h => by
        have hcalculated := hheld.calculate operation offset h.1
        obtain ⟨⟨hsound, -⟩, hbefore⟩ := h
        rw [List.map_append, List.append_assoc] at hsound hbefore
        have hspare := calculate_balances hread hbalances hsound operation offset
        rw [hbefore] at hspare
        generalize ((graphBuilder read).calculate operation arguments offset).run s = r at hcalculated hspare
        rcases r with ⟨e | a, s'⟩
        · exact ⟨hcalculated, hspare⟩
        · exact ⟨hcalculated, hspare⟩
      kind := fun hmem h => ⟨hheld.kind hmem h.1, (hbalances h.1.1 (.held hmem)).trans h.2⟩
      resolve := fun {r l s} name hr h => by
        obtain ⟨hresolved, hopen⟩ := hheld.resolve name hr h.1
        refine ⟨⟨hresolved, ?_⟩, hopen⟩
        rw [run_resolve]
        rcases hm : s.resolve? r name with _ | ⟨n | r' | items⟩
        · exact h.2
        · exact (spare_retain (live_of_resolve? h.1.1.accounts (h.1.2.record_live hr) hm)).trans h.2
        · exact h.2
        · exact h.2
      discard := fun {as l s} h => by
        refine ⟨hheld.discard h.1, ?_⟩
        obtain ⟨⟨hsound, -⟩, hbefore⟩ := h
        rw [List.map_append, List.append_assoc] at hsound hbefore
        exact (spare_release hsound.accounts).trans hbefore }

theorem parse_balances (hread : Reads read) (hbalances : Balances read) (h : g.Sound ext told)
    (hr : g.scopeIsLive scope = true) (text : String) :
    match ((graphBuilder read).parse scope text).run g with
    | (.ok root, g') => g'.spare (.node root :: ext) = g.spare ext
    | (.error _, g') => g'.spare ext = g.spare ext := by
  have hparse := (graphBuilder_balances hread hbalances g ext told).parse (l := []) (of_decide_eq_true hr) text
    ⟨⟨h, .refl g⟩, rfl⟩
  generalize ((graphBuilder read).parse scope text).run g = parsed at hparse ⊢
  rcases parsed with ⟨e | root, g'⟩
  · exact hparse.2
  · exact hparse.2

theorem buildTree_balances (hread : Reads read) (hbalances : Balances read) (h : g.Sound ext told) (n : NodeId)
    (scope : RecordId) (text : String) :
    match (buildTree read n scope text).run.run g with
    | (.ok root, g') => g'.spare (.node root :: ext) = g.spare ext
    | (.error _, g') => g'.spare ext = g.spare ext := by
  rw [run_buildTree]
  by_cases hs : g.scopeIsLive scope = true
  · have hsound := parse_sound hread h hs text
    have hparse := parse_balances hread hbalances h hs text
    rw [if_pos hs]
    generalize ((graphBuilder read).parse scope text).run g = parsed at hsound hparse ⊢
    rcases parsed with ⟨e | root, g'⟩
    · exact hparse
    · dsimp only
      by_cases hd : g'.dependsOn root n = true
      · rw [if_pos hd]
        exact (spare_release (hsound.1.accounts : g'.Accounts ([.node root] ++ ext))).trans hparse
      · rw [if_neg hd]
        exact hparse
  · rw [if_neg hs]

theorem buildTree_install_balances (hread : Reads read) (hbalances : Balances read) (h : g.Working ext told n g)
    (hnode : g.node n = .expression scope source) (hp : (g.node n).isPending = true) (text : String) :
    match (buildTree read n scope text).run.run g with
    | (.ok root, g') => ((installTree n scope text root source.tree?).run g').2.spare ext = g.spare ext
    | (.error _, g') => g'.spare ext = g.spare ext ∧ g'.node n = g.node n := by
  have hlt := lt_size_of_owners_pos (h.anchored.live h.sound.accounts)
  have hbuild := buildTree_sound hread h.sound n scope text
  have hspare := buildTree_balances hread hbalances h.sound n scope text
  generalize (buildTree read n scope text).run.run g = built at hbuild hspare ⊢
  rcases built with ⟨e | root, g'⟩
  · exact ⟨hspare, hbuild.2.node n trivial hlt (.inr h.evaluating)⟩
  · have hsame := hbuild.2.node n trivial hlt (.inr h.evaluating)
    have hlive := (h.trans (hbuild.1.mono fun p => by rw [List.countP_cons]; omega) hbuild.2).anchored.live
      (hbuild.1.accounts.mono fun p => by rw [List.countP_cons]; omega)
    exact (spare_installTree text hbuild.1 hlive (hsame.trans hnode) (hsame ▸ hp)).trans hspare

theorem currentTree_balances (hread : Reads read) (hbalances : Balances read) (h : g.Working ext told n g)
    (hnode : g.node n = .expression scope source) :
    ((currentTree read n scope source).run.run g).2.spare ext = g.spare ext := by
  rw [run_currentTree]
  cases source with
  | built tree => rfl
  | unbuilt text =>
    have hbuild := buildTree_install_balances hread hbalances h hnode (by rw [hnode]; rfl) text
    dsimp only
    generalize (buildTree read n scope text).run.run g = built at hbuild ⊢
    rcases built with ⟨e | root, g'⟩
    · exact hbuild.1
    · exact hbuild
  | edited text old =>
    have hbuild := buildTree_install_balances hread hbalances h hnode (by rw [hnode]; rfl) text
    dsimp only
    generalize (buildTree read n scope text).run.run g = built at hbuild ⊢
    rcases built with ⟨e | root, g'⟩
    · exact (spare_setNode (by rw [hbuild.2, hnode]; rfl)).trans hbuild.1
    · exact hbuild

theorem mapM_balances (hread : Reads read) (hbalances : Balances read) (nodes : List NodeId)
    (h : g.Sound ext told) (hnodes : ∀ m ∈ nodes, g.Anchored ext m) :
    ((nodes.mapM read).run.run g).2.spare ext = g.spare ext := by
  induction nodes generalizing g with
  | nil => rfl
  | cons m nodes ih =>
    have hm := hnodes m List.mem_cons_self
    obtain ⟨hsound, hgrows, -⟩ := hread h hm
    have hspare := hbalances h hm
    rw [List.mapM_cons, run_bind_except]
    generalize (read m).run.run g = first at hsound hgrows hspare ⊢
    obtain ⟨e | v, g₁⟩ := first
    · exact hspare
    · have hrest := ih hsound fun d hd => (hnodes d (List.mem_cons_of_mem _ hd)).grows h.accounts hgrows
      dsimp only
      rw [run_bind_except]
      generalize (nodes.mapM read).run.run g₁ = rest at hrest ⊢
      obtain ⟨e | values, g₂⟩ := rest
      · exact hrest.trans hspare
      · exact hrest.trans hspare

theorem compute_balances (hread : Reads read) (hbalances : Balances read) (h : g.Working ext told n g) :
    ((compute read n).run.run g).2.spare ext = g.spare ext := by
  rw [run_compute]
  cases hn : g.node n with
  | constant value | input value => rfl
  | calculation operation operands offset tickets =>
    have hmapM := mapM_balances hread hbalances operands h.sound fun m hm =>
      h.anchored.dependency (by rw [hn]; rfl) (by rw [dependencies, hn]; exact hm)
    dsimp only
    generalize (operands.mapM read).run.run g = r at hmapM ⊢
    obtain ⟨e | values, g'⟩ := r
    · exact hmapM
    · exact hmapM
  | expression scope source =>
    have hcurrent := currentTree_working hread h hn
    have hspare := currentTree_balances hread hbalances h hn
    dsimp only
    generalize (currentTree read n scope source).run.run g = r at hcurrent hspare ⊢
    obtain ⟨e | tree, g'⟩ := r
    · exact hspare
    · obtain ⟨hworking, htree⟩ := hcurrent
      have hn' := htree tree rfl
      have hanchored : g'.Anchored ext tree.root :=
        hworking.anchored.dependency (by rw [hn']; rfl) (by
          rw [dependencies, hn']
          exact List.mem_singleton_self _)
      exact (hbalances hworking.sound hanchored).trans hspare

theorem spare_keepResult (n : NodeId) (result : Checked Value) (g : Graph) :
    ((keepResult n result).run g).2.spare ext = g.spare ext := by
  cases result with
  | ok v => exact spare_modifyCell (by exact fun _ => rfl) (by exact fun _ => rfl)
  | error e => exact spare_modifyCell (by exact fun _ => rfl) (by exact fun _ => rfl)

theorem evaluateNode_balances (hread : Reads read) (hbalances : Balances read) (h : g.Sound ext told)
    (hn : g.Anchored ext n) (hdirty : (g.cell n).dirty = true) :
    ((evaluateNode read n).run.run g).2.spare ext = g.spare ext := by
  rw [run_evaluateNode]
  by_cases he : (g.cell n).evaluating = true
  · rw [if_pos he]
  · rw [if_neg he]
    exact (spare_keepResult _ _ _).trans ((compute_balances hread hbalances (working_setEvaluating h hn hdirty)).trans
      (spare_modifyCell (by exact fun _ => rfl) (by exact fun _ => rfl)))

theorem settleAll_balances (hread : Reads read) (hbalances : Balances read) {nodes : List NodeId}
    (h : g.Sound ext told) (hnodes : ∀ m ∈ nodes, g.Anchored ext m) :
    ((settleAll read nodes).run g).2.spare ext = g.spare ext := by
  induction nodes generalizing g with
  | nil => rfl
  | cons n nodes ih =>
    have hrest := fun d hd => hnodes d (List.mem_cons_of_mem n hd)
    rw [run_settleAll_cons]
    by_cases hdirty : (g.cell n).dirty = true
    · rw [if_pos hdirty]
      have hn := hnodes n List.mem_cons_self
      obtain ⟨hsound, hgrows, -⟩ := evaluateNode_sound hread h hn hdirty
      have hspare := evaluateNode_balances hread hbalances h hn hdirty
      generalize (evaluateNode read n).run.run g = r at hsound hgrows hspare ⊢
      obtain ⟨e | v, g'⟩ := r
      · exact hspare
      · exact (ih hsound fun d hd => (hrest d hd).grows h.accounts hgrows).trans hspare
    · rw [if_neg hdirty]
      exact ih h hrest

theorem settle_balances (hread : Reads read) (hbalances : Balances read) (h : g.Sound ext told)
    (hn : g.Anchored ext n) (hdirty : (g.cell n).dirty = true) :
    ((settle read n).run g).2.spare ext = g.spare ext := by
  have hstart := working_setEvaluating h hn hdirty
  have hall := settleAll_balances hread hbalances hstart.sound
    (settleOrder_anchored hstart.sound.accounts hstart.anchored)
  rw [run_settle]
  exact (spare_modifyCell (by exact fun _ => rfl) (by exact fun _ => rfl)).trans
    (hall.trans (spare_modifyCell (by exact fun _ => rfl) (by exact fun _ => rfl)))

theorem readWith_balances (hread : Reads read) (hbalances : Balances read) : Balances (readWith read) := by
  intro g ext told n h hn
  rw [run_readWith]
  by_cases hdirty : (g.cell n).dirty = true
  · rw [if_pos hdirty]
    dsimp only
    by_cases he : (g.cell n).evaluating = true
    · rw [if_pos he]
    · rw [if_neg he]
      obtain ⟨hsound, hgrows, hdirty'⟩ := settle_sound hread h hn hdirty (Bool.eq_false_iff.mpr he)
      exact (evaluateNode_balances hread hbalances hsound (hn.grows h.accounts hgrows) hdirty').trans
        (settle_balances hread hbalances h hn hdirty)
  · obtain ⟨v, hv⟩ := h.coherent.cached n (hn.live h.accounts) (Bool.eq_false_iff.mpr hdirty)
    rw [if_neg hdirty, hv]

/-- However deep a read goes, by induction on how deep it may go. -/
theorem readWithin_balances (limit : Nat) : Balances (readWithin limit) := by
  induction limit with
  | zero => exact fun _ _ => rfl
  | succ limit ih => exact readWith_balances (readWithin_reads limit) ih

theorem readNode_balances : Balances readNode := by
  intro g ext told n h hn
  rw [run_readNode]
  exact readWithin_balances g.depthLimit h hn

end

end FormulaGraph
