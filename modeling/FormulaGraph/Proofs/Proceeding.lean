import FormulaGraph.Proofs.Draining

/-! What a read does to each node. Whenever it works a node out it counts that, and a node that it has not worked out
is as it was. A node is not worked out again once it is clean, so if that has been done once and it is clean, nothing
has gone wrong with it, and all that it reads has been worked out. -/

namespace FormulaGraph

open FormulaGraph.Graph

/-- Its edit has been taken back. -/
def Node.TakenBack (node node' : Node) : Prop :=
  ∃ scope text old, node = .expression scope (.edited text old) ∧ node' = .expression scope (.built old)

/-- Later on in a read. -/
structure Cell.Proceeds (c c' : Cell) : Prop where
  clean : c.dirty = false → c'.evaluations = c.evaluations
  idle : c'.evaluations = c.evaluations → c'.dirty = c.dirty ∧ c'.node = c.node
  /-- A failure would have left the node dirty, to be worked out again. -/
  once : c'.evaluations = c.evaluations + 1 → c'.dirty = false → ¬ c.node.TakenBack c'.node
  /-- Nothing is worked out from a formula that waits to be built. -/
  steady : c'.evaluations ≠ c.evaluations → c'.dirty = false → c'.node.isPending = false

theorem Cell.Proceeds.of_idle {c c' : Cell} (hevaluations : c'.evaluations = c.evaluations)
    (hdirty : c'.dirty = c.dirty) (hnode : c'.node = c.node) : c.Proceeds c' where
  clean _ := hevaluations
  idle _ := ⟨hdirty, hnode⟩
  once h := by omega
  steady h := (h hevaluations).elim

theorem Cell.Proceeds.trans {c c' c'' : Cell} (h : c.Proceeds c') (h' : c'.Proceeds c'')
    (hle : c.evaluations ≤ c'.evaluations) (hle' : c'.evaluations ≤ c''.evaluations) : c.Proceeds c'' where
  clean hc := by
    have hsame := h.clean hc
    rw [h'.clean ((h.idle hsame).1.trans hc), hsame]
  idle hsame := by
    obtain ⟨hdirty, hnode⟩ := h.idle (by omega)
    obtain ⟨hdirty', hnode'⟩ := h'.idle (by omega)
    exact ⟨hdirty'.trans hdirty, hnode'.trans hnode⟩
  once hnext hclean := by
    by_cases hsame : c'.evaluations = c.evaluations
    · rw [← (h.idle hsame).2]
      exact h'.once (by omega) hclean
    · obtain ⟨hdirty, hnode⟩ := h'.idle (by omega)
      rw [hnode]
      exact h.once (by omega) (hdirty.symm.trans hclean)
  steady hmore hclean := by
    by_cases hsame : c''.evaluations = c'.evaluations
    · obtain ⟨hdirty, hnode⟩ := h'.idle hsame
      rw [hnode]
      exact h.steady (by omega) (hdirty.symm.trans hclean)
    · exact h'.steady hsame hclean

namespace Graph

/-- What the node reads in `g` is there later on, and clean. -/
def Drained (g : Graph) (n : NodeId) (g' : Graph) : Prop :=
  ∀ d ∈ g.inputs n, d < g'.cells.size ∧ (g'.cell d).dirty = false

/-- The same of the nodes in `P` that were there. -/
structure ProceedsOn (P : NodeId → Prop) (g g' : Graph) : Prop where
  records : g'.records = g.records
  size : g.cells.size ≤ g'.cells.size
  evaluations (m : NodeId) : m < g.cells.size → (g.cell m).evaluations ≤ (g'.cell m).evaluations
  clean (m : NodeId) : m < g.cells.size → (g.cell m).dirty = false → (g'.cell m).dirty = false
  pending (m : NodeId) : (g'.node m).isPending = true → (g.node m).isPending = true
  cell (m : NodeId) : P m → m < g.cells.size → (g.cell m).Proceeds (g'.cell m)
  drained (m : NodeId) : P m → m < g.cells.size → (g'.cell m).evaluations = (g.cell m).evaluations + 1 →
    (g'.cell m).dirty = false → g.NamesPlainly m → g.Drained m g'

abbrev Proceeds : Graph → Graph → Prop := ProceedsOn fun _ => True

variable {P : NodeId → Prop} {g g' g'' : Graph} {n : NodeId} {ext holds : List Hold} {scope : RecordId}

theorem ProceedsOn.trans (h : g.ProceedsOn P g') (h' : g'.ProceedsOn P g'') : g.ProceedsOn P g'' where
  records := h'.records.trans h.records
  size := Nat.le_trans h.size h'.size
  evaluations m hm := Nat.le_trans (h.evaluations m hm) (h'.evaluations m (Nat.lt_of_lt_of_le hm h.size))
  clean m hm hclean := h'.clean m (Nat.lt_of_lt_of_le hm h.size) (h.clean m hm hclean)
  pending m hp := h.pending m (h'.pending m hp)
  cell m hP hm :=
    have hm' := Nat.lt_of_lt_of_le hm h.size
    (h.cell m hP hm).trans (h'.cell m hP hm') (h.evaluations m hm) (h'.evaluations m hm')
  drained m hP hm hnext hclean hplain d hd := by
    have hm' := Nat.lt_of_lt_of_le hm h.size
    have hle := h.evaluations m hm
    have hle' := h'.evaluations m hm'
    -- It has been worked out in one of the two parts, and left alone in the other.
    by_cases hsame : (g'.cell m).evaluations = (g.cell m).evaluations
    · have hnode : g'.node m = g.node m := ((h.cell m hP hm).idle hsame).2
      rw [← inputs_congr h.records hnode] at hd
      exact h'.drained m hP hm' (by omega) hclean (hplain.congr h.records hnode) d hd
    · have hdirty := ((h'.cell m hP hm').idle (by omega)).1
      obtain ⟨hlt, hcleand⟩ := h.drained m hP hm (by omega) (hdirty.symm.trans hclean) hplain d hd
      exact ⟨Nat.lt_of_lt_of_le hlt h'.size, h'.clean d hlt hcleand⟩

theorem Proceeds.on (h : g.Proceeds g') : g.ProceedsOn P g' :=
  ⟨h.records, h.size, h.evaluations, h.clean, h.pending, fun m _ => h.cell m trivial, fun m _ => h.drained m trivial⟩

/-- Where nothing is worked out, nothing is drained. -/
theorem ProceedsOn.of_idle (hrecords : g'.records = g.records) (hsize : g.cells.size ≤ g'.cells.size)
    (hevaluations : ∀ m, m < g.cells.size → (g'.cell m).evaluations = (g.cell m).evaluations)
    (hdirty : ∀ m, m < g.cells.size → (g'.cell m).dirty = (g.cell m).dirty)
    (hpending : ∀ m, (g'.node m).isPending = true → (g.node m).isPending = true)
    (hnode : ∀ m, P m → m < g.cells.size → g'.node m = g.node m) : g.ProceedsOn P g' where
  records := hrecords
  size := hsize
  evaluations m hm := Nat.le_of_eq (hevaluations m hm).symm
  clean m hm hclean := (hdirty m hm).trans hclean
  pending := hpending
  cell m hP hm := .of_idle (hevaluations m hm) (hdirty m hm) (hnode m hP hm)
  drained m _ hm hnext := by
    rw [hevaluations m hm] at hnext
    omega

theorem Still.proceeds (h : g.Still g') : g.ProceedsOn P g' :=
  .of_idle h.records (Nat.le_of_eq h.size.symm) (fun m _ => h.evaluations m) (fun m _ => h.dirty m)
    (fun m hp => h.node m ▸ hp) fun m _ _ => h.node m

theorem ProceedsOn.refl (g : Graph) : g.ProceedsOn P g :=
  Still.proceeds ⟨rfl, rfl, fun _ => rfl, fun _ => rfl, fun _ => rfl⟩

theorem proceeds_addCell {node : Node} (hnode : node.isPending = false) (cache : Option Value) :
    g.Proceeds (g.addCell node cache).2 := by
  have hcell := cell_addCell (g := g) node cache
  have hsame : ∀ m, m < g.cells.size → (g.addCell node cache).2.cell m = g.cell m := fun m hm => by
    rw [hcell, if_neg (Nat.ne_of_lt hm)]
  refine .of_idle rfl (grows_addCell node cache).size (fun m hm => congrArg _ (hsame m hm))
    (fun m hm => congrArg _ (hsame m hm)) (fun m hp => ?_) fun m _ hm => congrArg _ (hsame m hm)
  rw [Graph.node, hcell] at hp
  split at hp
  · rw [hnode] at hp
    cases hp
  · exact hp

theorem proceeds_addCalculation (operation : Operation) (operands : List NodeId) (offset : Nat) :
    g.Proceeds (g.addCalculation operation operands offset).2 := by
  have hsubscribed := (still_subscribeAll (g := g) operands (.node g.cells.size)).proceeds (P := fun _ => True)
  rw [addCalculation]
  exact hsubscribed.trans (proceeds_addCell rfl _)

theorem proceeds_release (h : ∀ x ∈ holds, x.isRecord = false) : g.ProceedsOn P (g.release holds) :=
  (still_release h).proceeds

theorem proceeds_setNode {node : Node} (hnode : node.isPending = false) :
    g.ProceedsOn (· ≠ n) (g.modifyCell n fun c => { c with node }) := by
  refine .of_idle rfl (Nat.le_of_eq size_modifyCell.symm)
    (fun m _ => cell_modifyCell_congr Cell.evaluations (by exact fun _ => rfl) m)
    (fun m _ => cell_modifyCell_congr Cell.dirty (by exact fun _ => rfl) m) (fun m hp => ?_) fun m hm _ => ?_
  · rcases node_setNode g n node m with hsame | ⟨-, hnew⟩
    · rwa [hsame] at hp
    · rw [hnew, hnode] at hp
      cases hp
  · rw [Graph.node, cell_modifyCell_of_ne hm, Graph.node]

/-- What comes of one node is noted while it is dirty. -/
theorem proceeds_note {f : Cell → Cell} (hdirty : (g.cell n).dirty = true) (hnode : ∀ c, (f c).node = c.node)
    (hevaluations : ∀ c, (f c).evaluations = c.evaluations + 1) : g.ProceedsOn (· ≠ n) (g.modifyCell n f) where
  records := rfl
  size := Nat.le_of_eq size_modifyCell.symm
  evaluations m hm := by
    by_cases hmn : m = n
    · rw [hmn, cell_modifyCell_self (hmn ▸ hm), hevaluations]
      exact Nat.le_succ _
    · rw [cell_modifyCell_of_ne hmn]
  clean m hm hclean := by
    rw [cell_modifyCell_of_ne]
    · exact hclean
    · rintro rfl
      rw [hdirty] at hclean
      cases hclean
  pending m hp := by rwa [Graph.node, cell_modifyCell_congr Cell.node hnode] at hp
  cell m hmn _ := by
    rw [cell_modifyCell_of_ne hmn]
    exact .of_idle rfl rfl rfl
  drained m hmn _ hnext := by
    rw [cell_modifyCell_of_ne hmn] at hnext
    omega

/-- What is known of all nodes but one, and of that one. -/
theorem ProceedsOn.complete (h : g.ProceedsOn (· ≠ n) g') (hcell : (g.cell n).Proceeds (g'.cell n))
    (hdrained : (g'.cell n).dirty = false → g.NamesPlainly n → g.Drained n g') : g.Proceeds g' where
  records := h.records
  size := h.size
  evaluations := h.evaluations
  clean := h.clean
  pending := h.pending
  cell m _ hm := by
    by_cases hmn : m = n
    · exact hmn ▸ hcell
    · exact h.cell m hmn hm
  drained m _ hm hnext hclean hplain := by
    by_cases hmn : m = n
    · subst hmn
      exact hdrained hclean hplain
    · exact h.drained m hmn hm hnext hclean hplain

theorem proceeds_installTree (text : String) (root : NodeId) (old : Option Tree) :
    g.ProceedsOn (· ≠ n) ((installTree n scope text root old).run g).2 := by
  rw [run_installTree]
  exact ((still_subscribe _).proceeds.trans (proceeds_setNode rfl)).trans
    (proceeds_release (isRecord_of_mem_oldHolds old))

/-- A place that is asked for is not that of a ticket that is in use. -/
theorem Accounts.subscribe_ne (h : g.Accounts ext) (hn : 0 < (g.cell n).owners) {t : Ticket}
    (ht : t ∈ (g.node n).tickets) (root : NodeId) (l : Listener) : (g.subscribe root l).1 ≠ t := by
  rintro rfl
  exact ((h.arenas root).insert l).2.2.1 _ _ (h.listens n _ hn ht)

end Graph

/-- What is read proceeds. -/
def Proceeding (read : Reader) : Prop :=
  ∀ {g : Graph} {ext : List Hold} {told : List NodeId} {n : NodeId}, g.Sound ext told → g.Anchored ext n →
    g.Proceeds ((read n).run.run g).2

section

variable {g : Graph} {ext : List Hold} {told : List NodeId} {n : NodeId} {scope : RecordId} {source : Source}
  {read : Reader}

theorem graphBuilder_proceeds (hread : Reads read) (hproceeds : Proceeding read) (g : Graph) (ext : List Hold)
    (told : List NodeId) :
    (graphBuilder read).Keeps (fun nodes g' => g.Holding ext told nodes g' ∧ g.Proceeds g')
      fun r => 0 < (g.record r).owners := by
  have hheld := graphBuilder_keeps hread g ext told
  exact
    { recount := fun hcount h => ⟨hheld.recount hcount h.1, h.2⟩
      literal := fun v h => ⟨hheld.literal v h.1, h.2.trans (proceeds_addCell rfl _)⟩
      calculate := fun {arguments l s} operation offset h => by
        have hcalculated := hheld.calculate operation offset h.1
        have hlater : g.Proceeds (((graphBuilder read).calculate operation arguments offset).run s).2 := by
          obtain ⟨hadded, -⟩ := h.1.addCalculation operation offset
          have hafter := (h.2.trans (proceeds_addCalculation operation arguments offset)).trans
            (hproceeds hadded (.outside List.mem_cons_self))
          rw [run_calculate]
          generalize (read (s.addCalculation operation arguments offset).1).run.run
            (s.addCalculation operation arguments offset).2 = r at hafter
          rcases r with ⟨e | v, g'⟩
          · exact hafter.trans (proceeds_release (by simp [Hold.isRecord]))
          · exact hafter
        generalize ((graphBuilder read).calculate operation arguments offset).run s = r at hcalculated hlater
        rcases r with ⟨e | a, s'⟩
        · exact ⟨hcalculated, hlater⟩
        · exact ⟨hcalculated, hlater⟩
      kind := fun hmem h => ⟨hheld.kind hmem h.1, h.2.trans (hproceeds h.1.1 (.held hmem))⟩
      resolve := fun {r l s} name hr h => by
        obtain ⟨hresolved, hopen⟩ := hheld.resolve name hr h.1
        refine ⟨⟨hresolved, ?_⟩, hopen⟩
        rw [run_resolve]
        rcases s.resolve? r name with _ | ⟨n | r' | items⟩
        · exact h.2
        · exact h.2.trans still_retain_node.proceeds
        · exact h.2
        · exact h.2
      discard := fun {as l s} h =>
        ⟨hheld.discard h.1, h.2.trans (proceeds_release (isRecord_of_mem_nodes as))⟩ }

theorem parse_proceeds (hread : Reads read) (hproceeds : Proceeding read) (h : g.Sound ext told)
    (hs : g.scopeIsLive scope = true) (text : String) :
    g.Proceeds (((graphBuilder read).parse scope text).run g).2 := by
  have hparse := (graphBuilder_proceeds hread hproceeds g ext told).parse (l := []) (of_decide_eq_true hs) text
    ⟨⟨h, .refl g⟩, .refl g⟩
  generalize ((graphBuilder read).parse scope text).run g = parsed at hparse ⊢
  rcases parsed with ⟨e | root, g'⟩
  · exact hparse.2
  · exact hparse.2

theorem buildTree_proceeds (hread : Reads read) (hproceeds : Proceeding read) (h : g.Sound ext told) (n : NodeId)
    (scope : RecordId) (text : String) : g.Proceeds ((buildTree read n scope text).run.run g).2 := by
  rw [run_buildTree]
  by_cases hs : g.scopeIsLive scope = true
  · have hparse := parse_proceeds hread hproceeds h hs text
    rw [if_pos hs]
    generalize ((graphBuilder read).parse scope text).run g = parsed at hparse ⊢
    rcases parsed with ⟨e | root, g'⟩
    · exact hparse
    · dsimp only
      split
      · exact hparse.trans (proceeds_release (by simp [Hold.isRecord]))
      · exact hparse
  · rw [if_neg hs]
    exact .refl g

theorem currentTree_proceeds (hread : Reads read) (hproceeds : Proceeding read) (h : g.Sound ext told) :
    g.ProceedsOn (· ≠ n) ((currentTree read n scope source).run.run g).2 := by
  have hbuild := fun text => buildTree_proceeds hread hproceeds h n scope text
  rw [run_currentTree]
  cases source with
  | built tree => exact .refl g
  | unbuilt text =>
    have hbuilt := hbuild text
    dsimp only
    generalize (buildTree read n scope text).run.run g = built at hbuilt ⊢
    rcases built with ⟨e | root, g'⟩
    · exact hbuilt.on
    · exact hbuilt.on.trans (proceeds_installTree text root none)
  | edited text old =>
    have hbuilt := hbuild text
    dsimp only
    generalize (buildTree read n scope text).run.run g = built at hbuilt ⊢
    rcases built with ⟨e | root, g'⟩
    · exact hbuilt.on.trans (proceeds_setNode rfl)
    · exact hbuilt.on.trans (proceeds_installTree text root (some old))

theorem mapM_proceeds (hread : Reads read) (hproceeds : Proceeding read) (nodes : List NodeId)
    (h : g.Sound ext told) (hnodes : ∀ m ∈ nodes, g.Anchored ext m) :
    g.Proceeds ((nodes.mapM read).run.run g).2 := by
  induction nodes generalizing g with
  | nil => exact .refl g
  | cons m nodes ih =>
    have hm := hnodes m List.mem_cons_self
    obtain ⟨hsound, hgrows, -⟩ := hread h hm
    have hfirst := hproceeds h hm
    rw [List.mapM_cons, run_bind_except]
    generalize (read m).run.run g = first at hsound hgrows hfirst ⊢
    obtain ⟨e | v, g₁⟩ := first
    · exact hfirst
    · have hrest := ih hsound fun d hd => (hnodes d (List.mem_cons_of_mem _ hd)).grows h.accounts hgrows
      dsimp only
      rw [run_bind_except]
      generalize (nodes.mapM read).run.run g₁ = rest at hrest ⊢
      obtain ⟨e | values, g₂⟩ := rest
      · exact hfirst.trans hrest
      · exact hfirst.trans hrest

/-- While a node is worked out its own formula may come to be another one. -/
theorem compute_proceeds (hread : Reads read) (hproceeds : Proceeding read) (h : g.Working ext told n g) :
    g.ProceedsOn (· ≠ n) ((compute read n).run.run g).2 := by
  rw [run_compute]
  cases hn : g.node n with
  | constant value | input value => exact .refl g
  | calculation operation operands offset tickets =>
    have hmapM := mapM_proceeds hread hproceeds operands h.sound fun m hm =>
      h.anchored.dependency (by rw [hn]; rfl) (by rw [dependencies, hn]; exact hm)
    dsimp only
    generalize (operands.mapM read).run.run g = r at hmapM ⊢
    obtain ⟨e | values, g'⟩ := r
    · exact hmapM.on
    · exact hmapM.on
  | expression scope source =>
    have hcurrent := currentTree_working hread h hn
    have htree : g.ProceedsOn (· ≠ n) ((currentTree read n scope source).run.run g).2 :=
      currentTree_proceeds hread hproceeds h.sound
    dsimp only
    generalize (currentTree read n scope source).run.run g = r at hcurrent htree ⊢
    obtain ⟨e | tree, g'⟩ := r
    · exact htree
    · obtain ⟨hworking, hnode⟩ := hcurrent
      have hn' := hnode tree rfl
      have hanchored : g'.Anchored ext tree.root :=
        hworking.anchored.dependency (by rw [hn']; rfl) (by
          rw [dependencies, hn']
          exact List.mem_singleton_self _)
      exact htree.trans (hproceeds hworking.sound hanchored).on

/-- A new tree has a place of its own with its root, so it is not the old one. -/
theorem not_takenBack_of_installTree (ha : g.Accounts ext) (hn : 0 < (g.cell n).owners) {node : Node}
    (hnode : g.node n = node) (text : String) (root : NodeId) (old : Option Tree) :
    ¬ node.TakenBack (((installTree n scope text root old).run g).2.node n) := by
  rintro ⟨scope', text', old', rfl, hback⟩
  rw [node_installTree text root old (lt_size_of_owners_pos hn), run_installTree] at hback
  injection hback with _ hsource
  injection hsource with htree
  have hticket : old'.ticket ∈ (g.node n).tickets := by
    rw [hnode]
    exact List.mem_singleton_self _
  exact ha.subscribe_ne hn hticket root (.node n) (congrArg Tree.ticket htree)

theorem not_takenBack_of_currentTree (hread : Reads read) (h : g.Working ext told n g)
    (hnode : g.node n = .expression scope source) {tree : Tree}
    (hr : ((currentTree read n scope source).run.run g).1 = .ok tree) :
    ¬ (g.node n).TakenBack (((currentTree read n scope source).run.run g).2.node n) := by
  have hlt := lt_size_of_owners_pos (h.anchored.live h.sound.accounts)
  have hinstalled : ∀ text root g' old, (buildTree read n scope text).run.run g = (.ok root, g') →
      ¬ (g.node n).TakenBack (((installTree n scope text root old).run g').2.node n) := by
    intro text root g' old hb
    have hbuild := buildTree_sound hread h.sound n scope text
    rw [hb] at hbuild
    have hlive := ((h.anchored.grows h.sound.accounts hbuild.2).mono fun x hx =>
      List.mem_cons_of_mem (.node root) hx).live hbuild.1.accounts
    exact not_takenBack_of_installTree hbuild.1.accounts hlive (hbuild.2.node n trivial hlt (.inr h.evaluating)) text
      root old
  rw [run_currentTree] at hr ⊢
  cases source with
  | built tree =>
    rintro ⟨scope', text, old, hedited, -⟩
    rw [hnode] at hedited
    cases hedited
  | unbuilt text =>
    dsimp only at hr ⊢
    generalize hb : (buildTree read n scope text).run.run g = built at hr ⊢
    rcases built with ⟨e | root, g'⟩
    · cases hr
    · exact hinstalled text root g' none hb
  | edited text old =>
    dsimp only at hr ⊢
    generalize hb : (buildTree read n scope text).run.run g = built at hr ⊢
    rcases built with ⟨e | root, g'⟩
    · cases hr
    · exact hinstalled text root g' (some old) hb

/-- An edit is taken back only where a failure comes of it. -/
theorem not_takenBack_of_compute (hread : Reads read) (h : g.Working ext told n g) {v : Value}
    (hr : ((compute read n).run.run g).1 = .ok v) :
    ¬ (g.node n).TakenBack (((compute read n).run.run g).2.node n) := by
  cases hn : g.node n with
  | constant | input | calculation => exact fun ⟨_, _, _, he, _⟩ => by cases he
  | expression scope source =>
    have hsame := node_compute hread h hn
    have hkept : ∀ tree, ((currentTree read n scope source).run.run g).1 = .ok tree →
        ¬ (g.node n).TakenBack (((currentTree read n scope source).run.run g).2.node n) :=
      fun _ => not_takenBack_of_currentTree hread h hn
    rw [hn] at hkept
    rw [hsame]
    rw [run_compute, hn] at hr
    dsimp only at hr
    generalize (currentTree read n scope source).run.run g = r at hr hkept ⊢
    obtain ⟨e | tree, g'⟩ := r
    · cases hr
    · exact hkept tree rfl

/-- What has come of a dirty node is noted, and that it has been worked out. -/
theorem Graph.ProceedsOn.noted {g' : Graph} {f : Cell → Cell}
    (h : (g.modifyCell n fun c => { c with evaluating := true }).ProceedsOn (· ≠ n) g') (hlt : n < g.cells.size)
    (hdirty : (g.cell n).dirty = true) (hdirty' : (g'.cell n).dirty = true)
    (hnode : ∀ c, (f c).node = c.node) (hevaluations : ∀ c, (f c).evaluations = c.evaluations + 1)
    (hdone : (f (g'.cell n)).dirty = false → ¬ (g.node n).TakenBack (g'.node n) ∧ (g'.node n).isPending = false ∧
      (g.NamesPlainly n → g.Drained n g')) :
    g.Proceeds (g'.modifyCell n f) ∧ (g.cell n).evaluations < ((g'.modifyCell n f).cell n).evaluations := by
  have hbegun : g.ProceedsOn (· ≠ n) g' := (still_setEvaluating true).proceeds.trans h
  have hnoted : g'.ProceedsOn (· ≠ n) (g'.modifyCell n f) := proceeds_note hdirty' hnode hevaluations
  have hself : (g'.modifyCell n f).cell n = f (g'.cell n) :=
    cell_modifyCell_self (Nat.lt_of_lt_of_le hlt hbegun.size)
  have hmore : (g.cell n).evaluations < (f (g'.cell n)).evaluations := by
    rw [hevaluations]
    exact Nat.lt_succ_of_le (hbegun.evaluations n hlt)
  refine ⟨(hbegun.trans hnoted).complete ?_ fun hclean hplain d hd => ?_, by rwa [hself]⟩
  · rw [hself]
    exact
      { clean := fun hclean => by
          rw [hdirty] at hclean
          cases hclean
        idle := fun hsame => by omega
        once := fun _ hclean => by
          rw [hnode]
          exact (hdone hclean).1
        steady := fun _ hclean => by
          rw [hnode]
          exact (hdone hclean).2.1 }
  · rw [hself] at hclean
    obtain ⟨hltd, hcleand⟩ := (hdone hclean).2.2 hplain d hd
    exact ⟨Nat.lt_of_lt_of_le hltd hnoted.size, hnoted.clean d hltd hcleand⟩

/-- It is counted that a node is worked out, and the node is left dirty if that fails. -/
theorem evaluateNode_counts (hread : Reads read) (hproceeds : Proceeding read) (h : g.Sound ext told)
    (hn : g.Anchored ext n) (hdirty : (g.cell n).dirty = true) (hidle : ¬ (g.cell n).evaluating = true) :
    g.Proceeds ((evaluateNode read n).run.run g).2 ∧
      (g.cell n).evaluations < (((evaluateNode read n).run.run g).2.cell n).evaluations ∧
        ∀ e, ((evaluateNode read n).run.run g).1 = .error e →
          (((evaluateNode read n).run.run g).2.cell n).dirty = true := by
  have hstart := working_setEvaluating h.toldWithin hn hdirty
  have hlt := lt_size_of_owners_pos (hn.live h.accounts)
  have hnode : (g.modifyCell n fun c => { c with evaluating := true }).node n = g.node n :=
    cell_modifyCell_congr Cell.node (by exact fun _ => rfl) n
  have hinputs : (g.modifyCell n fun c => { c with evaluating := true }).inputs n = g.inputs n :=
    inputs_congr rfl hnode
  have hlt' := lt_size_of_inputs hstart.sound.accounts hstart.anchored
  have htold : ∀ m ∈ told.filter (· < g.cells.size),
      m < (g.modifyCell n fun c => { c with evaluating := true }).cells.size := fun m hm => by
    rw [size_modifyCell]
    exact of_decide_eq_true (List.mem_filter.mp hm).2
  have hcomputed := compute_proceeds hread hproceeds hstart
  obtain ⟨hworking, hvalue⟩ := compute_working hread hstart
  have hkept := fun v => not_takenBack_of_compute (v := v) hread hstart
  have hdrained := fun hplain v => inputs_clean_of_compute (v := v) hread hstart htold hplain
  rw [hnode] at hkept
  rw [hinputs] at hlt' hdrained
  rw [run_evaluateNode, if_neg hidle]
  dsimp only
  generalize (compute read n).run.run (g.modifyCell n fun c => { c with evaluating := true }) = computed
    at hcomputed hworking hvalue hkept hdrained ⊢
  obtain ⟨result, g'⟩ := computed
  cases result with
  | error e =>
    rw [run_keepResult_error]
    obtain ⟨hproceeds, hmore⟩ := hcomputed.noted (f := fun c =>
      { c with evaluating := false, evaluations := c.evaluations + 1 }) hlt hdirty hworking.dirty
      (by exact fun _ => rfl) (by exact fun _ => rfl) fun hclean => by
        rw [hworking.dirty] at hclean
        cases hclean
    refine ⟨hproceeds, hmore, fun _ _ => ?_⟩
    exact (cell_modifyCell_congr Cell.dirty (by exact fun _ => rfl) n).trans hworking.dirty
  | ok v =>
    rw [run_keepResult_ok]
    obtain ⟨hproceeds, hmore⟩ := hcomputed.noted (f := fun c =>
      { c with evaluating := false, evaluations := c.evaluations + 1, cache := some v, dirty := false }) hlt hdirty
      hworking.dirty (by exact fun _ => rfl) (by exact fun _ => rfl) fun _ =>
        ⟨hkept v rfl, not_pending_of_given? (hvalue v rfl).2, fun hplain d hd =>
          ⟨Nat.lt_of_lt_of_le (hlt' d hd) hcomputed.size, hdrained (hplain.congr rfl hnode) v rfl d hd⟩⟩
    exact ⟨hproceeds, hmore, fun _ he => by cases he⟩

theorem evaluateNode_proceeds (hread : Reads read) (hproceeds : Proceeding read) (h : g.Sound ext told)
    (hn : g.Anchored ext n) (hdirty : (g.cell n).dirty = true) :
    g.Proceeds ((evaluateNode read n).run.run g).2 := by
  by_cases he : (g.cell n).evaluating = true
  · rw [run_evaluateNode, if_pos he]
    exact .refl g
  · exact (evaluateNode_counts hread hproceeds h hn hdirty he).1

theorem settleAll_proceeds (hread : Reads read) (hproceeds : Proceeding read) {nodes : List NodeId}
    (h : g.Sound ext told) (hnodes : ∀ m ∈ nodes, g.Anchored ext m) :
    g.Proceeds ((settleAll read nodes).run g).2 := by
  induction nodes generalizing g with
  | nil => exact .refl g
  | cons n nodes ih =>
    have hrest := fun d hd => hnodes d (List.mem_cons_of_mem n hd)
    rw [run_settleAll_cons]
    by_cases hdirty : (g.cell n).dirty = true
    · rw [if_pos hdirty]
      have hn := hnodes n List.mem_cons_self
      obtain ⟨hsound, hgrows, -⟩ := evaluateNode_sound hread h hn hdirty
      have hfirst := evaluateNode_proceeds hread hproceeds h hn hdirty
      generalize (evaluateNode read n).run.run g = r at hsound hgrows hfirst ⊢
      obtain ⟨e | v, g'⟩ := r
      · exact hfirst
      · exact hfirst.trans (ih hsound fun d hd => (hrest d hd).grows h.accounts hgrows)
    · rw [if_neg hdirty]
      exact ih h hrest

theorem settle_proceeds (hread : Reads read) (hproceeds : Proceeding read) (h : g.Sound ext told)
    (hn : g.Anchored ext n) (hdirty : (g.cell n).dirty = true) : g.Proceeds ((settle read n).run g).2 := by
  have hstart := working_setEvaluating h hn hdirty
  have hall := settleAll_proceeds hread hproceeds hstart.sound
    (settleOrder_anchored hstart.sound.accounts hstart.anchored)
  rw [run_settle]
  exact ((still_setEvaluating true).proceeds.trans hall).trans (still_setEvaluating false).proceeds

theorem readWith_proceeds (hread : Reads read) (hproceeds : Proceeding read) : Proceeding (readWith read) := by
  intro g ext told n h hn
  rw [run_readWith]
  by_cases hdirty : (g.cell n).dirty = true
  · rw [if_pos hdirty]
    dsimp only
    by_cases he : (g.cell n).evaluating = true
    · rw [if_pos he]
      exact .refl g
    · rw [if_neg he]
      obtain ⟨hsound, hgrows, hdirty'⟩ := settle_sound hread h hn hdirty (Bool.eq_false_iff.mpr he)
      exact (settle_proceeds hread hproceeds h hn hdirty).trans
        (evaluateNode_proceeds hread hproceeds hsound (hn.grows h.accounts hgrows) hdirty')
  · obtain ⟨v, hv⟩ := h.coherent.cached n (hn.live h.accounts) (Bool.eq_false_iff.mpr hdirty)
    rw [if_neg hdirty, hv]
    exact .refl g

/-- However deep a read goes, by induction on how deep it may go. -/
theorem readWithin_proceeds (limit : Nat) : Proceeding (readWithin limit) := by
  induction limit with
  | zero => exact fun _ _ => .refl _
  | succ limit ih => exact readWith_proceeds (readWithin_reads limit) ih

end

end FormulaGraph
