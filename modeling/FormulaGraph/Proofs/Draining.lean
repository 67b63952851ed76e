import FormulaGraph.Proofs.Plain
import FormulaGraph.Proofs.Rejecting
import FormulaGraph.Proofs.Scanning

/-! Once a node has a value, all that it reads is clean. If its formula has been built for that, nothing but new nodes
lies between its root and what it names, and these have read what they stand on. -/

namespace FormulaGraph

open FormulaGraph.Graph Relation

section

variable {g g' : Graph} {ext : List Hold} {told : List NodeId} {n m d root : NodeId} {k : Nat} {scope : RecordId}
  {source : Source} {text : String} {read : Reader}

namespace Graph

theorem uses_of_since (h : (g.since k).Uses m d) : k ≤ m ∧ g.Uses m d := by
  rw [Uses, dependencies, node_since] at h
  split at h
  · cases hm : g.node m <;> rw [hm] at h <;> cases h
  next hge => exact ⟨Nat.le_of_not_lt hge, h⟩

/-- Only nodes that are there need to be told. -/
theorem Sound.toldWithin (h : g.Sound ext told) : g.Sound ext (told.filter (· < g.cells.size)) where
  accounts := h.accounts
  coherent :=
    { cached := h.coherent.cached
      fresh := fun m hm hclean hnot => h.coherent.fresh m hm hclean fun ht =>
        hnot (List.mem_filter.mpr ⟨ht, decide_eq_true (lt_size_of_owners_pos hm)⟩) }

/-- What is reached by new nodes from a clean node is clean, since nobody has yet to tell these of a change. -/
theorem Sound.clean_of_since (h : g.Sound ext told) (htold : ∀ m ∈ told, m < k) (hroot : 0 < (g.cell root).owners)
    (hclean : (g.cell root).dirty = false) (hway : ReflTransGen (g.since k).Uses root d) :
    (g.cell d).dirty = false := by
  suffices hd : 0 < (g.cell d).owners ∧ (g.cell d).dirty = false from hd.2
  induction hway with
  | refl => exact ⟨hroot, hclean⟩
  | tail _ hd ih =>
    obtain ⟨hnew, hd⟩ := uses_of_since hd
    have hnot := fun ht => Nat.not_lt_of_le hnew (htold _ ht)
    exact ⟨h.accounts.dependency_live ih.1 hd, (h.coherent.fresh _ ih.1 ih.2 hnot).1 _ hd⟩

theorem extends_installTree (hnode : (g.node n).isMade = false) (text : String) (root : NodeId) (old : Option Tree) :
    g.Extends ((installTree n scope text root old).run g).2 := by
  have halike : g.Alike (g.subscribe root (.node n)).2 := alike_subscribe _
  rw [run_installTree]
  refine (halike.extends.trans (extends_setNode ?_ _)).trans (alike_release (isRecord_of_mem_oldHolds old)).extends
  rwa [halike.node]

end Graph

theorem buildTree_built (hread : Reads read) (h : g.Sound ext told)
    (hb : (buildTree read n scope text).run.run g = (.ok root, g')) :
    g.scopeIsLive scope = true ∧ ∃ tokens e, tokenize text = .ok tokens ∧ Spells 0 e tokens ∧
      (g'.since g.cells.size).Built scope e (.value root) := by
  rw [run_buildTree] at hb
  by_cases hs : g.scopeIsLive scope = true
  · rw [if_pos hs] at hb
    generalize hparse : ((graphBuilder read).parse scope text).run g = parsed at hb
    rcases parsed with ⟨e | root', g₁⟩
    · cases hb
    · dsimp only at hb
      split at hb
      · cases hb
      · cases hb
        obtain ⟨tokens, e, htokens, hspells, hbuilt, -⟩ := parse_built_since hread h (of_decide_eq_true hs) hparse
        exact ⟨hs, tokens, e, htokens, hspells, hbuilt⟩
  · rw [if_neg hs] at hb
    cases hb

/-- The tree of a formula that waited to be built is a new one. -/
theorem currentTree_built (hread : Reads read) (h : g.Working ext told n g)
    (hnode : g.node n = .expression scope source) (hp : source.pending? = some text) {tree : Tree}
    (hr : (currentTree read n scope source).run.run g = (.ok tree, g')) :
    g.scopeIsLive scope = true ∧ ∃ tokens e, tokenize text = .ok tokens ∧ Spells 0 e tokens ∧
      (g'.since g.cells.size).Built scope e (.value tree.root) := by
  have hlt := lt_size_of_owners_pos (h.anchored.live h.sound.accounts)
  have hinstalled : ∀ root g₁ old, (buildTree read n scope text).run.run g = (.ok root, g₁) →
      g.scopeIsLive scope = true ∧ ∃ tokens e, tokenize text = .ok tokens ∧ Spells 0 e tokens ∧
        (((installTree n scope text root old).run g₁).2.since g.cells.size).Built scope e (.value root) := by
    intro root g₁ old hb
    obtain ⟨hs, tokens, e, htokens, hspells, hbuilt⟩ := buildTree_built hread h.sound hb
    have hgrows := buildTree_sound hread h.sound n scope text
    rw [hb] at hgrows
    have hsame : g₁.node n = g.node n := hgrows.2.node n trivial hlt (.inr h.evaluating)
    have hextends : g₁.Extends ((installTree n scope text root old).run g₁).2 :=
      extends_installTree (by rw [hsame, hnode]; rfl) text root old
    exact ⟨hs, tokens, e, htokens, hspells, hbuilt.extends hextends.since⟩
  rw [run_currentTree] at hr
  cases source with
  | built tree => cases hp
  | unbuilt text' =>
    cases hp
    dsimp only at hr
    generalize hb : (buildTree read n scope text).run.run g = built at hr
    rcases built with ⟨e | root, g₁⟩
    · cases hr
    · cases hr
      exact hinstalled root g₁ none hb
  | edited text' old =>
    cases hp
    dsimp only at hr
    generalize hb : (buildTree read n scope text).run.run g = built at hr
    rcases built with ⟨e | root, g₁⟩
    · cases hr
    · cases hr
      exact hinstalled root g₁ (some old) hb

/-- If a node has been worked out, its inputs have been. -/
theorem inputs_clean_of_compute (hread : Reads read) (h : g.Working ext told n g)
    (htold : ∀ m ∈ told, m < g.cells.size) (hplain : g.NamesPlainly n) {v : Value}
    (hr : ((compute read n).run.run g).1 = .ok v) :
    ∀ d ∈ g.inputs n, (((compute read n).run.run g).2.cell d).dirty = false := by
  obtain ⟨hworking, hvalue⟩ := compute_working hread h
  have hclean := (hvalue v hr).1
  by_cases hpending : (g.node n).isPending = true
  · cases hnode : g.node n with
    | constant | input | calculation =>
      rw [hnode] at hpending
      cases hpending
    | expression scope source =>
      rw [hnode] at hpending
      obtain ⟨text, hp⟩ := Option.isSome_iff_exists.mp hpending
      have hcurrent := currentTree_working hread h hnode
      have hnode' := node_compute hread h hnode
      rw [run_compute, hnode] at hr hworking hclean hnode' ⊢
      dsimp only at hr hworking hclean hnode' ⊢
      generalize hc : (currentTree read n scope source).run.run g = current at hr hworking hclean hnode' hcurrent ⊢
      obtain ⟨e | tree, g₁⟩ := current
      · cases hr
      · obtain ⟨hs, tokens, e, htokens, hspells, hbuilt⟩ := currentTree_built hread h hnode hp hc
        dsimp only at hr hworking hclean hnode' ⊢
        rw [hcurrent.2 tree rfl] at hnode'
        have hanchored : g₁.Anchored ext tree.root :=
          hcurrent.1.anchored.dependency (by rw [hcurrent.2 tree rfl]; rfl) (by
            rw [dependencies, hcurrent.2 tree rfl]
            exact List.mem_singleton_self _)
        obtain ⟨hsound, hgrows, -⟩ := hread hcurrent.1.sound hanchored
        generalize (read tree.root).run.run g₁ = result at hr hworking hclean hnode' hsound hgrows ⊢
        have hroot := (hanchored.grows hcurrent.1.sound.accounts hgrows).live hsound.accounts
        have hbuilt' := hbuilt.extends hgrows.extends.since
        intro d hd
        have hrecords : (result.2.since g.cells.size).records = g.records :=
          hgrows.records.trans hcurrent.1.grows.records
        obtain ⟨root, he, hway⟩ := (hplain.mentions_of_inputs hnode hp hs htokens hspells hrecords hbuilt' hd).reaches
          hbuilt'
        cases he
        exact hsound.clean_of_since htold hroot (hclean _ (by
          rw [dependencies, hnode']
          exact List.mem_singleton_self _)) hway
  · have hsteady := Bool.eq_false_iff.mpr hpending
    intro d hd
    refine hclean d ?_
    rw [dependencies, hworking.steady hsteady]
    rwa [inputs_of_steady hsteady] at hd

end

end FormulaGraph
