import FormulaGraph.Proofs.Retrying

/-! Trying formulas out one after the other. Whatever is tried out leaves the live nodes what they are, and so a
formula that can be built can still be built after others. -/

namespace FormulaGraph

open FormulaGraph.Graph Relation

namespace Graph

variable {g g₁ s s₁ : Graph} {ext : List Hold} {trees : Replaced} {edits done : List (NodeId × String)}
  {n m root : NodeId} {scope : RecordId} {text : String}

/-- The expression and its scope are alive, and the formula can be built. -/
def parses (g : Graph) (n : NodeId) (text : String) : Bool :=
  match g.node n with
  | .expression scope _ => g.isLive n && g.scopeIsLive scope && (g.parse scope text).1.isOk
  | _ => false

/-- What has been tried out: an edited expression has a tree for the last of its formulas, and live nodes are what
they were. -/
structure Trial (g : Graph) (edits : List (NodeId × String)) (trees : Replaced) (s : Graph) : Prop where
  edited (n : NodeId) (text : String) : edits.reverse.lookup n = some text →
    ∃ scope source root, g.node n = .expression scope source ∧ trees.lookup n = some root ∧
      s.BuiltFrom scope text root
  others (n : NodeId) : edits.reverse.lookup n = none → trees.lookup n = none
  kept (n : NodeId) : g.isLive n = true → s.node n = g.node n

/-- While the trees are held, nothing is being worked out, and what was there has not become anything else. -/
structure Trying (g : Graph) (ext : List Hold) (trees : Replaced) (s : Graph) : Prop where
  sound : s.Sound (Replaced.holds trees ++ ext) []
  orderly : s.Orderly
  idle (n : NodeId) : (s.cell n).evaluating = false
  grows : g.Grows s

theorem parses_iff : g.parses n text = true ↔ ∃ scope source root g₁, g.node n = .expression scope source ∧
    g.isLive n = true ∧ g.scopeIsLive scope = true ∧ g.parse scope text = (.ok root, g₁) := by
  rw [parses]
  cases g.node n with
  | constant | input | calculation =>
    constructor
    · intro h
      cases h
    · rintro ⟨_, _, _, _, hnode, -⟩
      cases hnode
  | expression scope source =>
    dsimp only
    rw [Bool.and_eq_true, Bool.and_eq_true]
    constructor
    · rintro ⟨⟨hlive, hs⟩, hok⟩
      generalize hparse : g.parse scope text = parsed at hok
      rcases parsed with ⟨e | root, g₁⟩
      · cases hok
      · exact ⟨scope, source, root, g₁, rfl, hlive, hs, hparse⟩
    · rintro ⟨_, _, root, g₁, hnode, hlive, hs, hparse⟩
      cases hnode
      rw [hparse]
      exact ⟨⟨hlive, hs⟩, rfl⟩

theorem GrowsOn.node_anchored (hgrows : g.Grows s) (hg : g.Accounts ext)
    (hsteady : ∀ m, 0 < (g.cell m).owners → (g.node m).isPending = false) (hn : g.Anchored ext n) :
    s.node n = g.node n :=
  hgrows.node n trivial (lt_size_of_owners_pos (hn.live hg)) (.inl (hsteady n (hn.live hg)))

/-- Whatever a formula can name has been there from the start. -/
theorem Trying.exists_footing (ht : Trying g ext trees s) (hg : g.Accounts ext)
    (hsteady : ∀ m, 0 < (g.cell m).owners → (g.node m).isPending = false) :
    ∃ rank, Footing s (g.Anchored ext) rank s.cells.size := by
  have hnode : ∀ n, g.Anchored ext n → s.node n = g.node n := fun n hn =>
    ht.grows.node_anchored hg hsteady hn
  refine ht.sound.footing ht.orderly ht.idle (fun n hn => ?_) (fun n hn => ?_) fun n d hn hd => ?_
  · exact ((hn.grows hg ht.grows).mono fun x hx => List.mem_append_right _ hx).live ht.sound.accounts
  · rw [hnode n hn]
    exact hsteady n (hn.live hg)
  · refine hn.dependency (hsteady n (hn.live hg)) ?_
    rwa [Uses, dependencies, hnode n hn] at hd

/-- A formula that can be built at the start can still be built. -/
theorem Trying.parse (ht : Trying g ext trees s) (h : g.Sound ext []) (ho : g.Orderly)
    (hsteady : ∀ m, 0 < (g.cell m).owners → (g.node m).isPending = false) (hs : g.scopeIsLive scope = true)
    (hparse : g.parse scope text = (.ok root, g₁)) : ∃ root' s₁, s.parse scope text = (.ok root', s₁) := by
  obtain ⟨hsound, hgrows⟩ := h.of_parse hs hparse
  obtain ⟨tokens, e, htokens, hspells, hbuilt, hknown, hr⟩ :=
    parse_built readNode_reads h (of_decide_eq_true hs) hparse
  obtain ⟨rank, hf⟩ := ht.exists_footing h.accounts hsteady
  have hnamed : ∀ {r name n}, 0 < (g₁.record r).owners → g₁.resolve? r name = some (.node n) →
      g.Anchored ext n := fun {r name n} hr hm => by
    rw [record, hgrows.records] at hr
    exact anchored_of_resolve? h.accounts hr ((resolve?_of_records hgrows.records r name).symm.trans hm)
  -- What such a node comes to is the same in all three graphs, since they have the same nodes below it.
  have hvalue : ∀ {n v}, g.Anchored ext n → g₁.Given (fun _ => True) n v → s.Evaluates n (.ok v) := by
    intro n v hn hgiven
    have hbefore := hsound.evaluates_of_has (ho.of_parse h hs hparse) hgiven.2.1 hgiven.1
      fun _ _ => List.not_mem_nil
    refine hbefore.of_within (fun n d hn hd => ?_) (fun m hm => ?_) hn
    · rw [Uses, dependencies, hgrows.node_anchored h.accounts hsteady hn] at hd
      exact hn.dependency (hsteady n (hn.live h.accounts)) hd
    · rw [ht.grows.node_anchored h.accounts hsteady hm, hgrows.node_anchored h.accounts hsteady hm]
  have hb := rebuilds_of_footing hf (deep_readNode hf) (ht.grows.records.trans hgrows.records.symm) (fun _ _ => trivial)
    fun hr hm hgiven => ⟨hnamed hr hm, hvalue (hnamed hr hm) hgiven⟩
  obtain ⟨root', s₁, hrun, -⟩ := parse_again hf hb hsound (fun hr hm _ => hnamed hr hm) hr htokens hspells hbuilt
    hknown (hsound.accounts.node_live List.mem_cons_self) trivial
  exact ⟨root', s₁, hrun⟩

/-- A tree that has been built takes its place among the others. -/
theorem Trying.replace (ht : Trying g ext trees s) (hs : s.scopeIsLive scope = true)
    (hparse : s.parse scope text = (.ok root, s₁)) (n : NodeId) :
    Trying g ext ((n, root) :: trees.filter (·.1 ≠ n)) (s₁.release ((trees.lookup n).toList.map .node)) := by
  obtain ⟨hsound, hgrows⟩ := ht.sound.of_parse hs hparse
  have hkeeps : ∀ {P : List NodeId → Graph → Prop}, Endures P → P [] s →
      P [] (s₁.release ((trees.lookup n).toList.map .node)) := fun {P} hP hbefore => by
    have hparsed := hP.parse hbefore ht.sound hs text
    rw [hparse] at hparsed
    exact hP.outlasts.outlives.release (k := 0) hparsed _
  have hreleased : s₁.Grows (s₁.release ((trees.lookup n).toList.map .node)) :=
    grows_release (by simp [Hold.isRecord])
  exact
    { sound := hsound.replace n
      orderly := hkeeps endures_orderly ht.orderly
      idle := busyWith_nil.mp (hkeeps endures_busyWith (busyWith_nil.mpr ht.idle))
      grows := ht.grows.trans (hgrows.trans hreleased) }

theorem lookup_replace (trees : Replaced) (root : NodeId) (hm : m ≠ n) :
    List.lookup m ((n, root) :: trees.filter (·.1 ≠ n)) = trees.lookup m := by
  rw [List.lookup_cons, beq_eq_false_iff_ne.mpr hm]
  dsimp only
  induction trees with
  | nil => rfl
  | cons entry trees ih =>
    obtain ⟨k, d⟩ := entry
    by_cases hk : k = n
    · rw [List.filter_cons_of_neg (by simpa using hk), ih, List.lookup_cons,
        beq_eq_false_iff_ne.mpr fun he => hm (he.trans hk)]
    · rw [List.filter_cons_of_pos (by simpa using hk), List.lookup_cons, List.lookup_cons, ih]

/-- One more edit counts for its expression, and changes nothing for the others. -/
theorem Trial.edit {source : Source} (h : Trial g done trees s) (hextends : s.Extends s₁)
    (hkept : ∀ m, g.isLive m = true → s₁.node m = g.node m) (hnode : g.node n = .expression scope source)
    (hbuilt : s₁.BuiltFrom scope text root) :
    Trial g (done ++ [(n, text)]) ((n, root) :: trees.filter (·.1 ≠ n)) s₁ := by
  have hlast : ∀ m, (done ++ [(n, text)]).reverse.lookup m = if m = n then some text else done.reverse.lookup m := by
    intro m
    rw [List.reverse_append, List.reverse_singleton, List.singleton_append, List.lookup_cons]
    by_cases hm : m = n
    · rw [if_pos hm, hm, beq_self_eq_true]
    · rw [if_neg hm, beq_eq_false_iff_ne.mpr hm]
  refine ⟨fun m text' hm => ?_, fun m hm => ?_, hkept⟩
  · rw [hlast] at hm
    by_cases hmn : m = n
    · rw [if_pos hmn] at hm
      cases hm
      exact ⟨scope, source, root, hmn ▸ hnode, hmn ▸ List.lookup_cons_self, hbuilt⟩
    · rw [if_neg hmn] at hm
      obtain ⟨scope', source', root', hnode', hroot', hbuilt'⟩ := h.edited m text' hm
      exact ⟨scope', source', root', hnode', (lookup_replace trees root hmn).trans hroot', hbuilt'.extends hextends⟩
  · rw [hlast] at hm
    by_cases hmn : m = n
    · rw [if_pos hmn] at hm
      cases hm
    · rw [if_neg hmn] at hm
      exact (lookup_replace trees root hmn).trans (h.others m hm)

/-- A formula that can be built at the start is built when its turn comes. -/
theorem Trying.step (ht : Trying g ext trees s) (h : g.Sound ext []) (ho : g.Orderly)
    (hsteady : ∀ m, 0 < (g.cell m).owners → (g.node m).isPending = false) (htrial : Trial g done trees s)
    (hparses : g.parses n text = true) :
    ∃ trees' s', (∀ edits, s.buildAll trees ((n, text) :: edits) = s'.buildAll trees' edits) ∧
      Trying g ext trees' s' ∧ Trial g (done ++ [(n, text)]) trees' s' := by
  obtain ⟨scope, source, _, _, hnode, hlive, hs, hparse⟩ := parses_iff.mp hparses
  obtain ⟨root, s₁, hparse'⟩ := ht.parse h ho hsteady hs hparse
  have hs' : s.scopeIsLive scope = true := by
    rw [scopeIsLive, record, ht.grows.records]
    exact hs
  have ht' := ht.replace hs' hparse' n
  have hgrows := (ht.sound.of_parse hs' hparse').2
  have hreleased : s₁.Extends (s₁.release ((trees.lookup n).toList.map .node)) :=
    (alike_release (by simp [Hold.isRecord])).extends
  have hkept : ∀ m, g.isLive m = true → (s₁.release ((trees.lookup n).toList.map .node)).node m = g.node m :=
    fun m hm => ht'.grows.node m trivial (lt_size_of_owners_pos (of_decide_eq_true hm))
      (.inl (hsteady m (of_decide_eq_true hm)))
  have hbuilt : s₁.BuiltFrom scope text root := parse_builtFrom readNode_reads ht.sound (of_decide_eq_true hs') hparse'
  refine ⟨_, _, fun edits => ?_, ht', htrial.edit (hgrows.extends.trans hreleased) hkept hnode
    (hbuilt.extends hreleased)⟩
  rw [buildAll, htrial.kept n hlive, hnode]
  dsimp only
  rw [if_pos hs', hparse']

/-- Formulas that can be built one by one are built one after the other. -/
theorem Trying.buildAll (ht : Trying g ext trees s) (h : g.Sound ext []) (ho : g.Orderly)
    (hsteady : ∀ m, 0 < (g.cell m).owners → (g.node m).isPending = false) (htrial : Trial g done trees s)
    (hparses : ∀ e ∈ edits, g.parses e.1 e.2 = true) :
    ∃ trees' s', s.buildAll trees edits = (.ok trees', s') ∧ Trying g ext trees' s' ∧
      Trial g (done ++ edits) trees' s' := by
  induction edits generalizing done trees s with
  | nil => exact ⟨trees, s, by rw [Graph.buildAll], ht, (List.append_nil done).symm ▸ htrial⟩
  | cons edit edits ih =>
    obtain ⟨n, text⟩ := edit
    obtain ⟨trees', s', hstep, ht', htrial'⟩ := ht.step h ho hsteady htrial (hparses _ List.mem_cons_self)
    obtain ⟨trees'', s'', hrun, ht'', htrial''⟩ :=
      ih ht' htrial' fun e he => hparses e (List.mem_cons_of_mem _ he)
    rw [List.append_assoc] at htrial''
    exact ⟨trees'', s'', (hstep edits).trans hrun, ht'', htrial''⟩

end Graph

end FormulaGraph
