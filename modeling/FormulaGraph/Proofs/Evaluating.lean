import FormulaGraph.Proofs.Installing

/-! Working out one node. Its formula is built first if it waits to be; the outcome is kept only if there is
a value, which then follows from what the node has read. -/

namespace FormulaGraph

open FormulaGraph.Graph

variable {g g' : Graph} {ext : List Hold} {told : List NodeId} {n : NodeId} {scope : RecordId}
  {source : Source} {read : Reader}

theorem run_attempt {α : Type} (x : Reading α) (g : Graph) :
    (attempt x).run.run g = (.ok (x.run.run g).1, (x.run.run g).2) := rfl

theorem run_getCell (n : NodeId) (g : Graph) : (getCell n).run.run g = (.ok (g.cell n), g) := rfl

theorem run_currentTree (read : Reader) (n : NodeId) (scope : RecordId) (source : Source) (g : Graph) :
    (currentTree read n scope source).run.run g =
      match source with
      | .built tree => (.ok tree, g)
      | .unbuilt text =>
        match (buildTree read n scope text).run.run g with
        | (.ok root, g') =>
          let installed := (installTree n scope text root none).run g'
          (.ok installed.1, installed.2)
        | (.error e, g') => (.error e, g')
      | .edited text old =>
        match (buildTree read n scope text).run.run g with
        | (.ok root, g') =>
          let installed := (installTree n scope text root (some old)).run g'
          (.ok installed.1, installed.2)
        | (.error e, g') =>
          (.error e, g'.modifyCell n fun c => { c with node := .expression scope (.built old) }) := by
  cases source with
  | built tree => rfl
  | unbuilt text =>
    rw [currentTree, run_bind_except]
    dsimp only
    rcases (buildTree read n scope text).run.run g with ⟨e | root, g'⟩ <;> rfl
  | edited text old =>
    rw [currentTree, run_bind_except, run_attempt]
    dsimp only
    rcases (buildTree read n scope text).run.run g with ⟨e | root, g'⟩ <;> rfl

theorem node_installTree (text : String) (root : NodeId) (old : Option Tree) (hn : n < g.cells.size) :
    ((installTree n scope text root old).run g).2.node n =
      .expression scope (.built ((installTree n scope text root old).run g).1) :=
  congrArg (·.1) (core_installTree_self scope text root old hn)

/-- The old formula is put back. -/
theorem setSource_working {text : String} {old : Tree} (h : g.Working ext told n g')
    (hnode : g'.node n = .expression scope (.edited text old)) (hp : (g.node n).isPending = true) :
    g.Working ext told n (g'.modifyCell n fun c => { c with node := .expression scope (.built old) }) := by
  have hne : ∀ m, m ≠ n →
      (g'.modifyCell n fun c => { c with node := .expression scope (.built old) }).cell m = g'.cell m :=
    fun m hm => cell_modifyCell_of_ne hm
  have hsound : (g'.modifyCell n fun c => { c with node := .expression scope (.built old) }).Sound ext told := by
    refine h.sound.setNode ?_ ?_ fun _ hclean => ?_
    · rw [hnode]
      rfl
    · rw [dependencies, hnode]
      rfl
    · rw [h.dirty] at hclean
      cases hclean
  exact
    { sound := hsound
      grows := h.grows.trans (.of_core rfl (Nat.le_of_eq size_modifyCell.symm) fun m hm _ => by rw [hne m hm])
      anchored := h.anchored.of_steady h.sound.accounts rfl fun m _ hm => by
        have hmn : m ≠ n := by
          rintro rfl
          rw [hnode] at hm
          cases hm
        rw [Graph.node, hne m hmn]
        rfl
      evaluating := (cell_modifyCell_congr Cell.evaluating (by exact fun _ => rfl) n).trans h.evaluating
      dirty := (cell_modifyCell_congr Cell.dirty (by exact fun _ => rfl) n).trans h.dirty
      steady := fun hn => by
        rw [hp] at hn
        cases hn
      frame := by
        rw [← h.frame, hnode, Graph.node,
          cell_modifyCell_self (lt_size_of_owners_pos (h.anchored.live h.sound.accounts))]
        rfl }

theorem buildTree_working (hread : Reads read) (h : g.Working ext told n g)
    (hnode : g.node n = .expression scope source) (hp : (g.node n).isPending = true) (text : String) :
    match (buildTree read n scope text).run.run g with
    | (.ok root, g') =>
      g.Working ext told n ((installTree n scope text root source.tree?).run g').2 ∧
        ((installTree n scope text root source.tree?).run g').2.node n =
          .expression scope (.built ((installTree n scope text root source.tree?).run g').1)
    | (.error _, g') => g.Working ext told n g' ∧ g'.node n = g.node n := by
  have hlt := lt_size_of_owners_pos (h.anchored.live h.sound.accounts)
  have hbuild := buildTree_sound hread h.sound n scope text
  generalize (buildTree read n scope text).run.run g = built at hbuild ⊢
  rcases built with ⟨e | root, g'⟩
  · exact ⟨h.trans hbuild.1 hbuild.2, hbuild.2.node n trivial hlt (.inr h.evaluating)⟩
  · have hsame := hbuild.2.node n trivial hlt (.inr h.evaluating)
    have hworking : g.Working ext told n g' :=
      h.trans (hbuild.1.mono fun p => by rw [List.countP_cons]; omega) hbuild.2
    exact ⟨installTree_working hworking hbuild.1 (hsame.trans hnode) (hsame ▸ hp) hp,
      node_installTree text root source.tree? (Nat.lt_of_lt_of_le hlt hbuild.2.size)⟩

/-- The tree is that of the node, which stays so while it is worked out. -/
theorem currentTree_working (hread : Reads read) (h : g.Working ext told n g)
    (hnode : g.node n = .expression scope source) :
    g.Working ext told n ((currentTree read n scope source).run.run g).2 ∧
      ∀ tree, ((currentTree read n scope source).run.run g).1 = .ok tree →
        ((currentTree read n scope source).run.run g).2.node n = .expression scope (.built tree) := by
  rw [run_currentTree]
  cases source with
  | built tree => exact ⟨h, fun tree' he => by cases he; exact hnode⟩
  | unbuilt text =>
    have hbuild := buildTree_working hread h hnode (by rw [hnode]; rfl) text
    dsimp only
    generalize (buildTree read n scope text).run.run g = built at hbuild ⊢
    rcases built with ⟨e | root, g'⟩
    · exact ⟨hbuild.1, fun _ he => by cases he⟩
    · exact ⟨hbuild.1, fun tree he => by cases he; exact hbuild.2⟩
  | edited text old =>
    have hp : (g.node n).isPending = true := by
      rw [hnode]
      rfl
    have hbuild := buildTree_working hread h hnode hp text
    dsimp only
    generalize (buildTree read n scope text).run.run g = built at hbuild ⊢
    rcases built with ⟨e | root, g'⟩
    · exact ⟨setSource_working hbuild.1 (hbuild.2.trans hnode) hp, fun _ he => by cases he⟩
    · exact ⟨hbuild.1, fun tree he => by cases he; exact hbuild.2⟩

theorem mapM_read (hread : Reads read) (nodes : List NodeId) (h : g.Sound ext told)
    (hnodes : ∀ m ∈ nodes, g.Anchored ext m) :
    ((nodes.mapM read).run.run g).2.Sound ext told ∧ g.Grows ((nodes.mapM read).run.run g).2 ∧
      ∀ values, ((nodes.mapM read).run.run g).1 = .ok values →
        (∀ m ∈ nodes, (((nodes.mapM read).run.run g).2.cell m).dirty = false) ∧
          nodes.mapM (fun m => (((nodes.mapM read).run.run g).2.cell m).cache) = some values := by
  induction nodes generalizing g with
  | nil => exact ⟨h, .refl g, fun values he => by cases he; exact ⟨fun _ hm => (List.not_mem_nil hm).elim, rfl⟩⟩
  | cons m nodes ih =>
    obtain ⟨hsound, hgrows, hvalue⟩ := hread h (hnodes m List.mem_cons_self)
    rw [List.mapM_cons, run_bind_except]
    generalize (read m).run.run g = first at hsound hgrows hvalue ⊢
    obtain ⟨e | v, g₁⟩ := first
    · exact ⟨hsound, hgrows, fun _ he => by cases he⟩
    · have hrest := ih hsound fun d hd =>
        (hnodes d (List.mem_cons_of_mem _ hd)).grows h.accounts hgrows
      dsimp only
      rw [run_bind_except]
      generalize (nodes.mapM read).run.run g₁ = rest at hrest ⊢
      obtain ⟨hsound', hgrows', hvalues⟩ := hrest
      obtain ⟨e | values, g₂⟩ := rest
      · exact ⟨hsound', hgrows.trans hgrows', fun _ he => by cases he⟩
      · refine ⟨hsound', hgrows.trans hgrows', fun _ he => ?_⟩
        cases he
        obtain ⟨hclean, hcached⟩ := hvalues values rfl
        obtain ⟨hcleanm, hcachem⟩ := hvalue v rfl
        obtain ⟨hcleanm', hcachem'⟩ := hgrows'.clean m trivial (lt_size_of_cache hcachem) hcleanm
        refine ⟨fun d hd => ?_, ?_⟩
        · cases hd with
          | head => exact hcleanm'
          | tail _ hd => exact hclean d hd
        · have hm : (g₂.cell m).cache = some v := hcachem'.trans hcachem
          show (m :: nodes).mapM (fun d => (g₂.cell d).cache) = some (v :: values)
          rw [List.mapM_cons, hm, hcached]
          rfl

theorem run_compute (read : Reader) (n : NodeId) (g : Graph) :
    (compute read n).run.run g =
      match g.node n with
      | .constant value | .input value => (.ok value, g)
      | .calculation operation operands offset _ =>
        match (operands.mapM read).run.run g with
        | (.ok values, g') => (applyAt operation values offset, g')
        | (.error e, g') => (.error e, g')
      | .expression scope source =>
        match (currentTree read n scope source).run.run g with
        | (.ok tree, g') =>
          let result := (read tree.root).run.run g'
          (result.1.mapError (·.attach tree.text), result.2)
        | (.error e, g') => (.error e, g') := by
  have hnode : (g.cell n).node = g.node n := rfl
  rw [compute, run_bind_except, run_getCell]
  dsimp only
  rw [hnode]
  cases g.node n with
  | constant | input => rfl
  | calculation operation operands offset =>
    dsimp only
    rw [run_bind_except]
    rcases (operands.mapM read).run.run g with ⟨e | values, g'⟩ <;> rfl
  | expression scope source =>
    dsimp only
    rw [run_bind_except]
    rcases (currentTree read n scope source).run.run g with ⟨e | tree, g'⟩ <;> rfl

theorem toOption_of_applyAt {operation : Operation} {operands : List Value} {offset : Nat} {v : Value}
    (h : applyAt operation operands offset = .ok v) : (operation.apply operands).toOption = some v := by
  rw [applyAt] at h
  cases ha : operation.apply operands with
  | ok value =>
    rw [ha] at h
    cases h
    rfl
  | error fault =>
    rw [ha] at h
    cases h

theorem ok_of_mapError {α ε ε' : Type} {f : ε → ε'} {x : Except ε α} {a : α} (h : x.mapError f = .ok a) :
    x = .ok a := by
  cases x with
  | ok => exact congrArg Except.ok (Except.ok.inj h)
  | error => cases h

/-- A value that is worked out is the one that follows from what has been read. -/
theorem compute_working (hread : Reads read) (h : g.Working ext told n g) :
    g.Working ext told n ((compute read n).run.run g).2 ∧
      ∀ v, ((compute read n).run.run g).1 = .ok v →
        (∀ d ∈ ((compute read n).run.run g).2.dependencies n,
          (((compute read n).run.run g).2.cell d).dirty = false) ∧
            ((compute read n).run.run g).2.given? n = some v := by
  have hlt := lt_size_of_owners_pos (h.anchored.live h.sound.accounts)
  have hgiven : ∀ v, g.node n = .constant v ∨ g.node n = .input v →
      (∀ d ∈ g.dependencies n, (g.cell d).dirty = false) ∧ g.given? n = some v := by
    intro v hv
    refine ⟨fun d hd => ?_, ?_⟩
    · rw [dependencies] at hd
      rcases hv with hv | hv <;> rw [hv] at hd <;> cases hd
    · rw [given?]
      rcases hv with hv | hv <;> rw [hv]
  rw [run_compute]
  cases hn : g.node n with
  | constant value => exact ⟨h, fun v he => by cases he; exact hgiven value (.inl hn)⟩
  | input value => exact ⟨h, fun v he => by cases he; exact hgiven value (.inr hn)⟩
  | calculation operation operands offset tickets =>
    have hmapM := mapM_read hread operands h.sound fun m hm =>
      h.anchored.dependency (by rw [hn]; rfl) (by rw [dependencies, hn]; exact hm)
    dsimp only
    generalize (operands.mapM read).run.run g = r at hmapM ⊢
    obtain ⟨e | values, g'⟩ := r
    · exact ⟨h.trans hmapM.1 hmapM.2.1, fun _ he => by cases he⟩
    · obtain ⟨hclean, hcached⟩ := hmapM.2.2 values rfl
      have hn' : g'.node n = .calculation operation operands offset tickets :=
        (hmapM.2.1.node n trivial hlt (.inr h.evaluating)).trans hn
      refine ⟨h.trans hmapM.1 hmapM.2.1, fun v he => ⟨fun d hd => ?_, ?_⟩⟩
      · rw [dependencies, hn'] at hd
        exact hclean d hd
      · rw [given?, hn']
        show (operands.mapM fun m => (g'.cell m).cache).bind _ = _
        rw [hcached]
        exact toOption_of_applyAt he
  | expression scope source =>
    have hcurrent := currentTree_working hread h hn
    dsimp only
    generalize (currentTree read n scope source).run.run g = r at hcurrent ⊢
    obtain ⟨e | tree, g'⟩ := r
    · exact ⟨hcurrent.1, fun _ he => by cases he⟩
    · obtain ⟨hworking, htree⟩ := hcurrent
      have hn' := htree tree rfl
      have hanchored : g'.Anchored ext tree.root :=
        hworking.anchored.dependency (by rw [hn']; rfl) (by
          rw [dependencies, hn']
          exact List.mem_singleton_self _)
      obtain ⟨hsound, hgrows, hvalue⟩ := hread hworking.sound hanchored
      have hlt' := lt_size_of_owners_pos (hworking.anchored.live hworking.sound.accounts)
      have hn'' := (hgrows.node n trivial hlt' (.inr hworking.evaluating)).trans hn'
      refine ⟨hworking.trans hsound hgrows, fun v he => ?_⟩
      obtain ⟨hclean, hcache⟩ := hvalue v (ok_of_mapError he)
      refine ⟨fun d hd => ?_, ?_⟩
      · rw [dependencies, hn''] at hd
        rw [List.mem_singleton.mp hd]
        exact hclean
      · rw [given?, hn'']
        exact hcache

/-- The mark of being worked out counts for nothing else. -/
theorem Graph.Sound.setEvaluating (h : g.Sound ext told) (evaluating : Bool) :
    (g.modifyCell n fun c => { c with evaluating }).Sound ext told :=
  ⟨h.accounts.modifyCell (by exact fun _ => rfl) (by exact fun _ => rfl) (by exact fun _ => rfl),
    h.coherent.of_eq (cell_modifyCell_congr Cell.node (by exact fun _ => rfl))
      (cell_modifyCell_congr Cell.cache (by exact fun _ => rfl))
      (cell_modifyCell_congr Cell.dirty (by exact fun _ => rfl))
      fun m hm => by rwa [cell_modifyCell_congr Cell.owners (by exact fun _ => rfl)] at hm⟩

theorem Graph.Anchored.setEvaluating {m : NodeId} (h : g.Anchored ext m) (ha : g.Accounts ext)
    (evaluating : Bool) : (g.modifyCell n fun c => { c with evaluating }).Anchored ext m :=
  h.of_steady ha rfl fun d _ _ => cell_modifyCell_congr Cell.node (by exact fun _ => rfl) d

/-- Work on a dirty node begins. -/
theorem working_setEvaluating (h : g.Sound ext told) (hn : g.Anchored ext n)
    (hdirty : (g.cell n).dirty = true) :
    (g.modifyCell n fun c => { c with evaluating := true }).Working ext told n
      (g.modifyCell n fun c => { c with evaluating := true }) where
  sound := h.setEvaluating true
  grows := .refl _
  anchored := hn.setEvaluating h.accounts true
  evaluating := by rw [cell_modifyCell_self (lt_size_of_owners_pos (hn.live h.accounts))]
  dirty := (cell_modifyCell_congr Cell.dirty (by exact fun _ => rfl) n).trans hdirty
  steady _ := rfl
  frame := rfl

/-- Work on a node ends. Only the node itself may be another one than before. -/
theorem Graph.Working.ends {f : Cell → Cell} {g₀ g₁ : Graph}
    (h : (g₀.modifyCell n fun c => { c with evaluating := true }).Working ext told n g₁)
    (hnode : ∀ c, (f c).node = c.node) (hf : (f (g₁.cell n)).evaluating = false)
    (hidle : (g₀.cell n).evaluating = false) (hdirty : (g₀.cell n).dirty = true) :
    g₀.Grows (g₁.modifyCell n f) := by
  have hstart : ∀ m, m ≠ n → (g₀.modifyCell n fun c => { c with evaluating := true }).cell m = g₀.cell m :=
    fun m hm => cell_modifyCell_of_ne hm
  have hend : ∀ m, m ≠ n → (g₁.modifyCell n f).cell m = g₁.cell m := fun m hm => cell_modifyCell_of_ne hm
  have hsame : (g₁.modifyCell n f).node n = g₁.node n := cell_modifyCell_congr Cell.node hnode n
  have hsteady := h.steady
  have hframe := h.frame
  have hnode₀ : (g₀.modifyCell n fun c => { c with evaluating := true }).node n = g₀.node n :=
    cell_modifyCell_congr Cell.node (by exact fun _ => rfl) n
  rw [hnode₀] at hsteady hframe
  obtain ⟨hrecords, hsize, hevaluating, hnodes, hbusy, hclean, hframes⟩ := h.grows
  rw [size_modifyCell] at hsize hevaluating hnodes hbusy hclean hframes
  refine ⟨hrecords, by rwa [size_modifyCell], fun m _ hm => ?_, fun m _ hm hor => ?_, fun m _ hm he => ?_,
    fun m _ hm hc => ?_, fun m _ hm => ?_⟩
  · by_cases hmn : m = n
    · subst hmn
      rw [cell_modifyCell_self (Nat.lt_of_lt_of_le hm hsize), hf, hidle]
    · have := hevaluating m hmn hm
      rwa [hstart m hmn, ← hend m hmn] at this
  · by_cases hmn : m = n
    · subst hmn
      rw [hsame]
      exact hsteady (hor.resolve_right fun he => by rw [hidle] at he; cases he)
    · have := hnodes m hmn hm
      rw [Graph.node, hstart m hmn, Graph.node, ← hend m hmn] at this
      exact this hor
  · have hmn : m ≠ n := by
      rintro rfl
      rw [hidle] at he
      cases he
    have := hbusy m hmn hm
    rw [hstart m hmn, ← hend m hmn] at this
    exact this he
  · have hmn : m ≠ n := by
      rintro rfl
      rw [hdirty] at hc
      cases hc
    have := hclean m hmn hm
    rw [hstart m hmn, ← hend m hmn] at this
    exact this hc
  · by_cases hmn : m = n
    · subst hmn
      rw [hsame]
      exact hframe
    · have := hframes m hmn hm
      rwa [Graph.node, ← hend m hmn, Graph.node, hstart m hmn] at this

theorem run_keepResult_ok (n : NodeId) (v : Value) (g : Graph) :
    (keepResult n (.ok v)).run g = ((), g.modifyCell n fun c =>
      { c with evaluating := false, evaluations := c.evaluations + 1, cache := some v, dirty := false }) := rfl

theorem run_keepResult_error (n : NodeId) (e : FormulaError) (g : Graph) :
    (keepResult n (.error e)).run g = ((), g.modifyCell n fun c =>
      { c with evaluating := false, evaluations := c.evaluations + 1 }) := rfl

/-- No clean node reads a dirty one, so nothing else depends on what is noted. -/
theorem Graph.Coherent.keep {v : Value} {f : Cell → Cell} (h : g.Coherent told) (hlt : n < g.cells.size)
    (hdirty : (g.cell n).dirty = true) (hclean : ∀ d ∈ g.dependencies n, (g.cell d).dirty = false)
    (hgiven : g.given? n = some v) (hnode : ∀ c, (f c).node = c.node)
    (hcache : ∀ c, (f c).cache = some v) :
    (g.modifyCell n f).Coherent told := by
  have hother : ∀ m, m ≠ n → (g.modifyCell n f).cell m = g.cell m := fun m hm => cell_modifyCell_of_ne hm
  have hnodes : ∀ m, (g.modifyCell n f).node m = g.node m := cell_modifyCell_congr Cell.node hnode
  have hfresh : ∀ m w, (∀ d ∈ g.dependencies m, (g.cell d).dirty = false) → g.given? m = some w →
      ((g.modifyCell n f).cell m).cache = some w → (g.modifyCell n f).Fresh m := by
    intro m w hdeps hw hcached
    have hne : ∀ d ∈ g.dependencies m, d ≠ n := by
      rintro d hd rfl
      rw [hdeps d hd] at hdirty
      cases hdirty
    refine ⟨fun d hd => ?_, w, hcached, ?_⟩
    · rw [dependencies, hnodes] at hd
      rw [hother d (hne d hd)]
      exact hdeps d hd
    · rw [given?_eq (hnodes m) fun d hd => by rw [hother d (hne d hd)]]
      exact hw
  have hself : ((g.modifyCell n f).cell n).cache = some v := by
    rw [cell_modifyCell_self hlt]
    exact hcache _
  refine ⟨fun m hm hc => ?_, fun m hm hc hnot => ?_⟩
  · by_cases hmn : m = n
    · exact ⟨v, hmn ▸ hself⟩
    · rw [hother m hmn] at hm hc ⊢
      exact h.cached m hm hc
  · by_cases hmn : m = n
    · exact hfresh m v (hmn ▸ hclean) (hmn ▸ hgiven) (hmn ▸ hself)
    · rw [hother m hmn] at hm hc
      obtain ⟨hdeps, w, hw, hgivenm⟩ := h.fresh m hm hc hnot
      exact hfresh m w hdeps hgivenm (by rw [hother m hmn]; exact hw)

theorem run_evaluateNode (read : Reader) (n : NodeId) (g : Graph) :
    (evaluateNode read n).run.run g =
      if (g.cell n).evaluating then (.error cycleError, g)
      else
        let computed := (compute read n).run.run (g.modifyCell n fun c => { c with evaluating := true })
        (computed.1, ((keepResult n computed.1).run computed.2).2) := by
  rw [evaluateNode, run_bind_except, run_getCell]
  dsimp only
  split
  · rfl
  · rfl

/-- A dirty node that can be reached from outside is worked out. -/
theorem evaluateNode_sound (hread : Reads read) (h : g.Sound ext told) (hn : g.Anchored ext n)
    (hdirty : (g.cell n).dirty = true) :
    ((evaluateNode read n).run.run g).2.Sound ext told ∧ g.Grows ((evaluateNode read n).run.run g).2 ∧
      ∀ v, ((evaluateNode read n).run.run g).1 = .ok v →
        (((evaluateNode read n).run.run g).2.cell n).dirty = false ∧
          (((evaluateNode read n).run.run g).2.cell n).cache = some v := by
  rw [run_evaluateNode]
  by_cases he : (g.cell n).evaluating = true
  · rw [if_pos he]
    exact ⟨h, .refl g, fun _ he => by cases he⟩
  · rw [if_neg he]
    have hidle := Bool.eq_false_iff.mpr he
    obtain ⟨hworking, hvalue⟩ := compute_working hread (working_setEvaluating h hn hdirty)
    dsimp only
    generalize (compute read n).run.run (g.modifyCell n fun c => { c with evaluating := true }) = computed
      at hworking hvalue ⊢
    obtain ⟨result, g'⟩ := computed
    have hlt := lt_size_of_owners_pos (hworking.anchored.live hworking.sound.accounts)
    cases result with
    | error e =>
      rw [run_keepResult_error]
      refine ⟨⟨?_, ?_⟩, hworking.ends (by exact fun _ => rfl) rfl hidle hdirty, fun _ he => by cases he⟩
      · exact hworking.sound.accounts.modifyCell (by exact fun _ => rfl) (by exact fun _ => rfl)
          (by exact fun _ => rfl)
      · exact hworking.sound.coherent.of_eq (cell_modifyCell_congr Cell.node (by exact fun _ => rfl))
          (cell_modifyCell_congr Cell.cache (by exact fun _ => rfl))
          (cell_modifyCell_congr Cell.dirty (by exact fun _ => rfl))
          fun m hm => by rwa [cell_modifyCell_congr Cell.owners (by exact fun _ => rfl)] at hm
    | ok v =>
      obtain ⟨hclean, hgiven⟩ := hvalue v rfl
      rw [run_keepResult_ok]
      refine ⟨⟨?_, ?_⟩, hworking.ends (by exact fun _ => rfl) rfl hidle hdirty, fun w hw => ?_⟩
      · exact hworking.sound.accounts.modifyCell (by exact fun _ => rfl) (by exact fun _ => rfl)
          (by exact fun _ => rfl)
      · exact hworking.sound.coherent.keep hlt hworking.dirty hclean hgiven (by exact fun _ => rfl)
          (by exact fun _ => rfl)
      · cases hw
        rw [cell_modifyCell_self hlt]
        exact ⟨rfl, rfl⟩

end FormulaGraph
