import FormulaGraph.Proofs.Reading

/-! Building the formula of an expression and putting the tree in place. The old tree is given up, and
what it held with it. -/

namespace FormulaGraph

variable {g g' : Graph} {ext : List Hold} {told : List NodeId} {n m root : NodeId} {scope : RecordId}
  {source : Source} {text : String} {read : Reader}

section

variable {α β : Type}

theorem run_get (g : Graph) : (get : Reading Graph).run.run g = (.ok g, g) := rfl

theorem run_mk (x : StateM Graph (Checked α)) (g : Graph) :
    (ExceptT.mk x : Reading α).run.run g = x.run g := rfl

end

theorem run_buildTree (read : Reader) (n : NodeId) (scope : RecordId) (text : String) (g : Graph) :
    (buildTree read n scope text).run.run g =
      if g.scopeIsLive scope then
        match ((graphBuilder read).parse scope text).run g with
        | (.ok root, g') =>
          if g'.dependsOn root n then (.error (cycleError.attach text), g'.release [.node root])
          else (.ok root, g')
        | (.error e, g') => (.error e, g')
      else (.error (ParseFault.scopeGone.at 0), g) := by
  rw [buildTree, run_bind_except, run_get]
  dsimp only
  cases g.scopeIsLive scope with
  | false => rfl
  | true =>
    simp only [Bool.not_true, Bool.false_eq_true, if_false, if_true]
    rw [run_bind_except, run_mk]
    rcases ((graphBuilder read).parse scope text).run g with ⟨r, g'⟩
    cases r with
    | error e => rfl
    | ok root =>
      dsimp only
      rw [run_bind_except, run_get]
      dsimp only
      split <;> rfl

theorem parse_of_buildTree (h : (buildTree read n scope text).run.run g = (.ok root, g')) :
    g.scopeIsLive scope = true ∧ ((graphBuilder read).parse scope text).run g = (.ok root, g') ∧
      ¬ g'.dependsOn root n = true := by
  rw [run_buildTree] at h
  split at h
  next hs =>
    generalize ((graphBuilder read).parse scope text).run g = parsed at h ⊢
    rcases parsed with ⟨e | root, g'⟩
    · cases h
    · dsimp only at h
      split at h
      · cases h
      next hd =>
        cases h
        exact ⟨hs, rfl, hd⟩
  · cases h

/-- The new tree is held for the expression. -/
theorem buildTree_sound (hread : Reads read) (h : g.Sound ext told) (n : NodeId) (scope : RecordId)
    (text : String) :
    match (buildTree read n scope text).run.run g with
    | (.ok root, g') => g'.Sound (.node root :: ext) told ∧ g.Grows g'
    | (.error _, g') => g'.Sound ext told ∧ g.Grows g' := by
  rw [run_buildTree]
  cases hs : g.scopeIsLive scope with
  | false => exact ⟨h, .refl g⟩
  | true =>
    have hparse := parse_sound hread h hs text
    simp only [if_true]
    generalize ((graphBuilder read).parse scope text).run g = parsed at hparse ⊢
    rcases parsed with ⟨e | root, g'⟩
    · exact hparse
    · dsimp only
      by_cases hd : g'.dependsOn root n = true
      · rw [if_pos hd]
        exact ⟨hparse.1.release_node, hparse.2.trans Graph.grows_release_node⟩
      · rw [if_neg hd]
        exact hparse

namespace Graph

/-- A node that is dirty or to be told may become another one. -/
theorem Coherent.setNode {f : Cell → Cell} (h : g.Coherent told) (howners : ∀ c, (f c).owners = c.owners)
    (hcache : ∀ c, (f c).cache = c.cache) (hdirty : ∀ c, (f c).dirty = c.dirty)
    (hn : 0 < (g.cell n).owners → (g.cell n).dirty = false → n ∈ told) :
    (g.modifyCell n f).Coherent told := by
  have howners' := fun m => cell_modifyCell_congr (g := g) (n := n) Cell.owners howners m
  have hcache' := fun m => cell_modifyCell_congr (g := g) (n := n) Cell.cache hcache m
  have hdirty' := fun m => cell_modifyCell_congr (g := g) (n := n) Cell.dirty hdirty m
  refine ⟨fun m hm hclean => ?_, fun m hm hclean hnot => ?_⟩
  · rw [howners'] at hm
    rw [hdirty'] at hclean
    rw [hcache']
    exact h.cached m hm hclean
  · rw [howners'] at hm
    rw [hdirty'] at hclean
    have hne : m ≠ n := by
      rintro rfl
      exact hnot (hn hm hclean)
    have hnode : (g.modifyCell n f).node m = g.node m := by
      rw [node, cell_modifyCell_of_ne hne, node]
    obtain ⟨hdeps, v, hv, hgiven⟩ := h.fresh m hm hclean hnot
    refine ⟨fun d hd => ?_, v, ?_, ?_⟩
    · rw [dependencies, hnode] at hd
      rw [hdirty']
      exact hdeps d hd
    · rw [hcache']
      exact hv
    · rw [given?_eq hnode fun d _ => hcache' d]
      exact hgiven

theorem tally_setNode {node : Node} (h : node.holds = (g.node n).holds) (p : Hold → Bool) :
    (g.modifyCell n fun c => { c with node }).tally p = g.tally p := by
  by_cases hlt : n < g.cells.size
  · have htally := tally_modifyCell (f := fun c => { c with node }) (p := p) hlt
    have hclaims : Cell.claims { g.cell n with node } = (g.cell n).claims := by
      rw [Cell.claims, Cell.claims, h]
      rfl
    rw [hclaims] at htally
    omega
  · exact congrArg (tally · p) (modifyCell_of_size_le (Nat.le_of_not_lt hlt))

/-- It holds the same and reads the same as before. -/
theorem Sound.setNode {node : Node} (h : g.Sound ext told) (htickets : node.tickets = (g.node n).tickets)
    (hdependencies : node.dependencies = g.dependencies n)
    (hn : 0 < (g.cell n).owners → (g.cell n).dirty = false → n ∈ told) :
    (g.modifyCell n fun c => { c with node }).Sound ext told := by
  have hself : n < g.cells.size → (g.modifyCell n fun c => { c with node }).node n = node := fun hlt => by
    rw [Graph.node, cell_modifyCell_self hlt]
  refine ⟨h.accounts.move (fun m => ?_) (fun _ => rfl) (fun p => Nat.add_le_add_right ?_ _) fun m hm => ?_,
    h.coherent.setNode (by exact fun _ => rfl) (by exact fun _ => rfl) (by exact fun _ => rfl) hn⟩
  · exact ⟨cell_modifyCell_congr Cell.owners (by exact fun _ => rfl) m,
      cell_modifyCell_congr Cell.listeners (by exact fun _ => rfl) m⟩
  · refine Nat.le_of_eq (tally_setNode ?_ p)
    rw [Node.holds_eq, Node.holds_eq, htickets, hdependencies]
    rfl
  · by_cases he : m = n
    · subst he
      rw [dependencies, hself (lt_size_of_owners_pos hm), htickets, hdependencies]
      exact h.accounts.node_listens hm
    · rw [dependencies, Graph.node, cell_modifyCell_of_ne he]
      exact h.accounts.node_listens hm

end Graph

open FormulaGraph.Graph

/-- What an expression gives up for a new tree. -/
def oldHolds (old : Option Tree) : List Hold := old.toList.flatMap fun old => [.ticket old.ticket, .node old.root]

theorem isRecord_of_mem_oldHolds (old : Option Tree) : ∀ x ∈ oldHolds old, x.isRecord = false := by
  intro x hx
  rw [oldHolds] at hx
  obtain ⟨tree, -, hx⟩ := List.mem_flatMap.mp hx
  rcases List.mem_cons.mp hx with rfl | hx
  · rfl
  · rw [List.mem_singleton.mp hx]
    rfl

theorem countP_oldHolds (scope : RecordId) (source : Source) (p : Hold → Bool) :
    (oldHolds source.tree?).countP p = (Node.expression scope source).holds.countP p := by
  rw [Node.holds, oldHolds]
  cases source.tree? with
  | none => rfl
  | some tree =>
    simp only [Option.toList_some, List.flatMap_cons, List.flatMap_nil, List.append_nil, Tree.holds,
      List.countP_cons, List.countP_nil]
    omega

theorem run_installTree (g : Graph) (old : Option Tree) :
    (installTree n scope text root old).run g =
      (⟨text, root, (g.subscribe root (.node n)).1⟩,
        (((g.subscribe root (.node n)).2.modifyCell n fun c =>
          { c with node := .expression scope (.built ⟨text, root, (g.subscribe root (.node n)).1⟩) }).release
            (oldHolds old))) := rfl

/-- The expression with the new tree, before the old one is given up. -/
def Graph.replaceTree (g : Graph) (n : NodeId) (scope : RecordId) (text : String) (root : NodeId) : Graph :=
  (g.subscribe root (.node n)).2.modifyCell n fun c =>
    { c with node := .expression scope (.built ⟨text, root, (g.subscribe root (.node n)).1⟩) }

theorem run_installTree_eq_release (g : Graph) (old : Option Tree) :
    ((installTree n scope text root old).run g).2 = (g.replaceTree n scope text root).release (oldHolds old) := rfl

/-- The new tree takes over the hold on its root and the place with it. -/
theorem tally_replaceTree (text : String) (root : NodeId) (hn : 0 < (g.cell n).owners)
    (hnode : g.node n = .expression scope source) (p : Hold → Bool) :
    (g.replaceTree n scope text root).tally p + (oldHolds source.tree?).countP p =
      g.tally p + [Hold.node root, .ticket (g.subscribe root (.node n)).1].countP p := by
  have hn' : 0 < ((g.subscribe root (.node n)).2.cell n).owners := by
    rw [owners_subscribe]
    exact hn
  have hnode' : ((g.subscribe root (.node n)).2.cell n).node = .expression scope source :=
    (congrArg (·.1) (core_subscribe (.node n) n)).trans hnode
  have htally := tally_modifyCell (p := p) (f := fun c =>
    { c with node := .expression scope (.built ⟨text, root, (g.subscribe root (.node n)).1⟩) })
    (lt_size_of_owners_pos hn')
  rw [Cell.claims, if_neg (Nat.ne_of_gt hn'), hnode', ← countP_oldHolds, tally_subscribe, Cell.claims,
    if_neg (Nat.ne_of_gt hn')] at htally
  exact htally

/-- What the expression held for the old tree is still to be given up. -/
theorem replaceTree_sound (text : String) (h : g.Sound (.node root :: ext) told) (hn : 0 < (g.cell n).owners)
    (hnode : g.node n = .expression scope source) (hp : (g.node n).isPending = true) :
    (g.replaceTree n scope text root).Sound (oldHolds source.tree? ++ ext) told := by
  have hroot : root < g.cells.size :=
    lt_size_of_owners_pos (h.accounts.node_live List.mem_cons_self)
  have hsubscribed := h.subscribe hroot (.node n)
  obtain ⟨-, hself, -⟩ := h.accounts.subscribe hroot (.node n)
  have hreplaced := tally_replaceTree text root hn hnode
  have hcore := core_subscribe (g := g) (n := root) (.node n) n
  have hlive := owners_subscribe (g := g) (n := root) (.node n) n
  have hsource : (g.subscribe root (.node n)).1.source = root := rfl
  have hsame := tally_subscribe (g := g) (n := root) (.node n)
  rw [replaceTree] at hreplaced ⊢
  generalize g.subscribe root (.node n) = subscribed at hsubscribed hself hreplaced hcore hlive hsource hsame ⊢
  obtain ⟨t, g'⟩ := subscribed
  dsimp only at *
  have hlt := lt_size_of_owners_pos (Nat.lt_of_lt_of_eq hn hlive.symm)
  refine ⟨hsubscribed.accounts.move (fun m => ?_) (fun _ => rfl) (fun p => ?_) fun m hm => ?_, ?_⟩
  · exact ⟨cell_modifyCell_congr Cell.owners (by exact fun _ => rfl) m,
      cell_modifyCell_congr Cell.listeners (by exact fun _ => rfl) m⟩
  · have htally := hreplaced p
    rw [hsame]
    simp only [List.countP_append, List.countP_cons, List.countP_nil] at htally ⊢
    omega
  · by_cases he : m = n
    · rw [he, dependencies, node, cell_modifyCell_self hlt]
      exact ⟨fun t' ht' => List.mem_singleton.mp ht' ▸ hself, congrArg ([·]) hsource⟩
    · rw [dependencies, node, cell_modifyCell_of_ne he]
      exact hsubscribed.accounts.node_listens hm
  · refine hsubscribed.coherent.setNode (by exact fun _ => rfl) (by exact fun _ => rfl)
      (by exact fun _ => rfl) fun hlive hclean => ?_
    by_cases hmem : n ∈ told
    · exact hmem
    · obtain ⟨v, -, hgiven⟩ := (hsubscribed.coherent.fresh n hlive hclean hmem).value
      rw [← show g'.node n = g.node n from congrArg (·.1) hcore, not_pending_of_given? hgiven] at hp
      cases hp

theorem installTree_sound (text : String) (h : g.Sound (.node root :: ext) told) (hn : 0 < (g.cell n).owners)
    (hnode : g.node n = .expression scope source) (hp : (g.node n).isPending = true) :
    ((installTree n scope text root source.tree?).run g).2.Sound ext told := by
  rw [run_installTree_eq_release]
  exact (replaceTree_sound text h hn hnode hp).release

theorem core_installTree (old : Option Tree) (hm : m ≠ n) :
    (((installTree n scope text root old).run g).2.cell m).core = (g.cell m).core := by
  rw [run_installTree]
  dsimp only
  rw [core_release, cell_modifyCell_of_ne hm, core_subscribe]

theorem core_installTree_self (scope : RecordId) (text : String) (root : NodeId) (old : Option Tree)
    (hn : n < g.cells.size) :
    (((installTree n scope text root old).run g).2.cell n).core =
      (.expression scope (.built ((installTree n scope text root old).run g).1), (g.cell n).cache,
        (g.cell n).dirty, (g.cell n).evaluating) := by
  have hcore := core_subscribe (g := g) (n := root) (.node n) n
  rw [run_installTree]
  dsimp only
  rw [core_release, cell_modifyCell_self (by rwa [size_subscribe])]
  exact congrArg (fun core : Node × Option Value × Bool × Bool =>
    (Node.expression scope (.built ⟨text, root, (g.subscribe root (.node n)).1⟩), core.2)) hcore

theorem records_installTree (g : Graph) (n : NodeId) (scope : RecordId) (text : String) (root : NodeId)
    (old : Option Tree) : ((installTree n scope text root old).run g).2.records = g.records := by
  rw [run_installTree]
  dsimp only
  rw [records_release (isRecord_of_mem_oldHolds old)]
  rfl

/-- Nobody comes back to life when a tree is put in place. -/
theorem live_of_installTree (old : Option Tree)
    (h : 0 < (((installTree n scope text root old).run g).2.cell m).owners) : 0 < (g.cell m).owners := by
  rw [run_installTree_eq_release] at h
  have hbefore := Nat.lt_of_lt_of_le h (owners_release_le m)
  rwa [replaceTree, cell_modifyCell_congr Cell.owners (by exact fun _ => rfl), owners_subscribe] at hbefore

theorem size_installTree (g : Graph) (n : NodeId) (scope : RecordId) (text : String) (root : NodeId)
    (old : Option Tree) : ((installTree n scope text root old).run g).2.cells.size = g.cells.size := by
  rw [run_installTree]
  dsimp only
  rw [size_release, size_modifyCell, size_subscribe]

/-- While `n` is being worked out, it stays dirty and alive, and the others grow. -/
structure Graph.Working (g : Graph) (ext : List Hold) (told : List NodeId) (n : NodeId) (g' : Graph) :
    Prop where
  sound : g'.Sound ext told
  grows : g.GrowsOn (· ≠ n) g'
  anchored : g'.Anchored ext n
  evaluating : (g'.cell n).evaluating = true
  dirty : (g'.cell n).dirty = true
  steady : (g.node n).isPending = false → g'.node n = g.node n
  frame : (g'.node n).frame = (g.node n).frame

theorem Graph.Working.trans {g'' : Graph} (h : g.Working ext told n g') (hs : g''.Sound ext told)
    (hg : g'.Grows g'') : g.Working ext told n g'' := by
  have hlt := lt_size_of_owners_pos (h.anchored.live h.sound.accounts)
  exact
    { sound := hs
      grows := h.grows.trans hg.on
      anchored := h.anchored.grows h.sound.accounts hg
      evaluating := (hg.evaluating n trivial hlt).trans h.evaluating
      dirty := (hg.busy n trivial hlt h.evaluating).trans h.dirty
      steady := fun hn => (hg.node n trivial hlt (.inr h.evaluating)).trans (h.steady hn)
      frame := (hg.frame n trivial hlt).trans h.frame }

theorem installTree_working (h : g.Working ext told n g') (hs : g'.Sound (.node root :: ext) told)
    (hnode : g'.node n = .expression scope source) (hp : (g'.node n).isPending = true)
    (hp' : (g.node n).isPending = true) :
    g.Working ext told n ((installTree n scope text root source.tree?).run g').2 := by
  have hn := h.anchored.live h.sound.accounts
  have hlt := lt_size_of_owners_pos hn
  have hself := core_installTree_self scope text root source.tree? hlt
  have hcore : ∀ m, m ≠ n →
      (((installTree n scope text root source.tree?).run g').2.cell m).core = (g'.cell m).core :=
    fun m hm => core_installTree source.tree? hm
  have hsound := installTree_sound text hs hn hnode hp
  have hrecords := records_installTree g' n scope text root source.tree?
  have hsize := size_installTree g' n scope text root source.tree?
  generalize (installTree n scope text root source.tree?).run g' = r at *
  exact
    { sound := hsound
      grows := h.grows.trans (.of_core hrecords (Nat.le_of_eq hsize.symm) fun m hm _ => hcore m hm)
      anchored := h.anchored.of_steady h.sound.accounts hrecords fun m _ hm => by
        have hne : m ≠ n := by
          rintro rfl
          rw [hp] at hm
          cases hm
        exact congrArg (·.1) (hcore m hne)
      evaluating := (congrArg (·.2.2.2) hself).trans h.evaluating
      dirty := (congrArg (·.2.2.1) hself).trans h.dirty
      steady := fun hn => by
        rw [hp'] at hn
        cases hn
      frame := by
        rw [← h.frame, hnode]
        exact congrArg (·.1.frame) hself }

end FormulaGraph
