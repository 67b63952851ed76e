import FormulaGraph.Proofs.Listening
import FormulaGraph.Operation.Apply

/-! Values that are kept are the right ones. A clean node has the value that follows from the clean nodes it
reads, unless it is still to be told of a change. -/

namespace FormulaGraph

/-- What counts for a node's value. -/
def Cell.core (c : Cell) : Node × Option Value × Bool × Bool := (c.node, c.cache, c.dirty, c.evaluating)

def Node.isPending : Node → Bool
  | .expression _ source => source.pending?.isSome
  | _ => false

/-- Without values and formulas: what nothing changes about a node once it is there. -/
def Node.frame : Node → Node
  | .constant _ | .input _ => .constant (.bool false)
  | .calculation operation operands offset tickets => .calculation operation operands offset tickets
  | .expression scope _ => .expression scope (.unbuilt "")

section

variable {α β : Type} {f f' : α → Option β} {xs : List α}

theorem mapM_congr (h : ∀ x ∈ xs, f x = f' x) : xs.mapM f = xs.mapM f' := by
  induction xs with
  | nil => rfl
  | cons x xs ih =>
    rw [List.mapM_cons, List.mapM_cons, h x List.mem_cons_self,
      ih fun y hy => h y (List.mem_cons_of_mem _ hy)]

theorem exists_of_mapM {ys : List β} (h : xs.mapM f = some ys) {x : α} (hx : x ∈ xs) :
    ∃ y, f x = some y := by
  induction xs generalizing ys with
  | nil => cases hx
  | cons y xs ih =>
    rw [List.mapM_cons] at h
    obtain ⟨z, hz, h⟩ := Option.bind_eq_some_iff.mp h
    obtain ⟨zs, hzs, -⟩ := Option.bind_eq_some_iff.mp h
    cases hx with
    | head => exact ⟨z, hz⟩
    | tail _ hx => exact ih hzs hx

end

namespace Graph

/-- The value that follows from what its dependencies have kept. -/
def given? (g : Graph) (n : NodeId) : Option Value :=
  match g.node n with
  | .constant value | .input value => some value
  | .calculation operation operands _ _ =>
    (operands.mapM fun m => (g.cell m).cache).bind fun values => (operation.apply values).toOption
  | .expression _ (.built tree) => (g.cell tree.root).cache
  | .expression .. => none

structure Fresh (g : Graph) (n : NodeId) : Prop where
  clean : ∀ d ∈ g.dependencies n, (g.cell d).dirty = false
  value : ∃ v, (g.cell n).cache = some v ∧ g.given? n = some v

/-- What is kept is right, except with the nodes that are still to be told. -/
structure Coherent (g : Graph) (told : List NodeId) : Prop where
  cached (n : NodeId) : 0 < (g.cell n).owners → (g.cell n).dirty = false → ∃ v, (g.cell n).cache = some v
  fresh (n : NodeId) : 0 < (g.cell n).owners → (g.cell n).dirty = false → n ∉ told → g.Fresh n

/-- Later on, with the same records. Of the nodes in `P`, what was clean is still clean and has the same
value, what is being worked out is left alone, and only expressions whose formula waits to be built may
have come by another tree. -/
structure GrowsOn (P : NodeId → Prop) (g g' : Graph) : Prop where
  records : g'.records = g.records
  size : g.cells.size ≤ g'.cells.size
  evaluating (n : NodeId) : P n → n < g.cells.size → (g'.cell n).evaluating = (g.cell n).evaluating
  node (n : NodeId) : P n → n < g.cells.size →
    (g.node n).isPending = false ∨ (g.cell n).evaluating = true → g'.node n = g.node n
  busy (n : NodeId) : P n → n < g.cells.size → (g.cell n).evaluating = true →
    (g'.cell n).dirty = (g.cell n).dirty
  clean (n : NodeId) : P n → n < g.cells.size → (g.cell n).dirty = false →
    (g'.cell n).dirty = false ∧ (g'.cell n).cache = (g.cell n).cache
  frame (n : NodeId) : P n → n < g.cells.size → (g'.node n).frame = (g.node n).frame

abbrev Grows : Graph → Graph → Prop := GrowsOn fun _ => True

/-- Held from outside or by a live record, or read by such a node through a formula that is built. -/
inductive Anchored (g : Graph) (ext : List Hold) : NodeId → Prop
  | outside {n : NodeId} (h : .node n ∈ ext) : Anchored g ext n
  | member {r : RecordId} {n : NodeId} (hr : 0 < (g.record r).owners)
    (h : .node n ∈ (g.record r).holds) : Anchored g ext n
  | dependency {n d : NodeId} (h : Anchored g ext n) (hn : (g.node n).isPending = false)
    (hd : d ∈ g.dependencies n) : Anchored g ext d

variable {g g' g'' : Graph} {ext ext' : List Hold} {told told' : List NodeId} {n m d : NodeId} {v : Value}

theorem lt_size_of_cache (h : (g.cell n).cache = some v) : n < g.cells.size := by
  refine Nat.lt_of_not_le fun hn => ?_
  rw [cell, Array.getElem?_eq_none hn] at h
  cases h

theorem given?_eq (hnode : g'.node n = g.node n)
    (hcache : ∀ d ∈ g.dependencies n, (g'.cell d).cache = (g.cell d).cache) :
    g'.given? n = g.given? n := by
  rw [given?, given?, hnode]
  rw [dependencies] at hcache
  cases hn : g.node n with
  | constant | input => rfl
  | calculation operation operands =>
    rw [hn] at hcache
    have hvalues : operands.mapM (fun m => (g'.cell m).cache) =
        operands.mapM fun m => (g.cell m).cache := mapM_congr hcache
    simp only [hvalues]
  | expression scope source =>
    rw [hn] at hcache
    cases source with
    | built tree => exact hcache _ (by simp [Node.dependencies, Source.tree?])
    | unbuilt | edited => rfl

theorem cache_of_given? (h : g.given? n = some v) (hd : d ∈ g.dependencies n) :
    ∃ w, (g.cell d).cache = some w := by
  rw [given?] at h
  rw [dependencies] at hd
  cases hn : g.node n with
  | constant | input => rw [hn] at hd; cases hd
  | calculation operation operands =>
    rw [hn] at h hd
    obtain ⟨values, hvalues, -⟩ := Option.bind_eq_some_iff.mp h
    exact exists_of_mapM hvalues hd
  | expression scope source =>
    rw [hn] at h hd
    cases source with
    | built tree =>
      have he : d = tree.root := by simpa [Node.dependencies, Source.tree?] using hd
      exact ⟨v, he ▸ h⟩
    | unbuilt | edited => cases h

theorem not_pending_of_given? (h : g.given? n = some v) : (g.node n).isPending = false := by
  rw [given?] at h
  cases hn : g.node n with
  | constant | input | calculation => rfl
  | expression scope source =>
    cases source with
    | built => rfl
    | unbuilt | edited => rw [hn] at h; cases h

theorem Fresh.grows (h : g.Fresh n) (hg : g.Grows g') (hn : (g.cell n).dirty = false) : g'.Fresh n := by
  obtain ⟨v, hcache, hgiven⟩ := h.value
  have hlt := lt_size_of_cache hcache
  have hnode := hg.node n trivial hlt (.inl (not_pending_of_given? hgiven))
  have hdependency : ∀ d ∈ g.dependencies n, (g'.cell d).dirty = false ∧
      (g'.cell d).cache = (g.cell d).cache := by
    intro d hd
    obtain ⟨w, hw⟩ := cache_of_given? hgiven hd
    exact hg.clean d trivial (lt_size_of_cache hw) (h.clean d hd)
  refine ⟨fun d hd => ?_, v, ?_, ?_⟩
  · rw [dependencies, hnode] at hd
    exact (hdependency d hd).1
  · rw [(hg.clean n trivial hlt hn).2]
    exact hcache
  · rw [given?_eq hnode fun d hd => (hdependency d hd).2]
    exact hgiven

variable {P : NodeId → Prop}

theorem GrowsOn.refl (g : Graph) : g.GrowsOn P g :=
  ⟨rfl, Nat.le_refl _, fun _ _ _ => rfl, fun _ _ _ _ => rfl, fun _ _ _ _ => rfl, fun _ _ _ h => ⟨h, rfl⟩,
    fun _ _ _ => rfl⟩

theorem GrowsOn.trans (h : g.GrowsOn P g') (h' : g'.GrowsOn P g'') : g.GrowsOn P g'' where
  records := h'.records.trans h.records
  size := Nat.le_trans h.size h'.size
  evaluating n hP hn :=
    (h'.evaluating n hP (Nat.lt_of_lt_of_le hn h.size)).trans (h.evaluating n hP hn)
  node n hP hn hsteady := by
    have hnode := h.node n hP hn hsteady
    rw [h'.node n hP (Nat.lt_of_lt_of_le hn h.size) (by rwa [hnode, h.evaluating n hP hn]), hnode]
  busy n hP hn he := by
    have he' := (h.evaluating n hP hn).trans he
    exact (h'.busy n hP (Nat.lt_of_lt_of_le hn h.size) he').trans (h.busy n hP hn he)
  clean n hP hn hclean := by
    obtain ⟨hclean', hcache⟩ := h.clean n hP hn hclean
    obtain ⟨hclean'', hcache'⟩ := h'.clean n hP (Nat.lt_of_lt_of_le hn h.size) hclean'
    exact ⟨hclean'', hcache'.trans hcache⟩
  frame n hP hn := (h'.frame n hP (Nat.lt_of_lt_of_le hn h.size)).trans (h.frame n hP hn)

theorem GrowsOn.record_live (h : g.GrowsOn P g') {r : RecordId} (hr : 0 < (g.record r).owners) :
    0 < (g'.record r).owners := by
  rw [record, h.records]
  exact hr

theorem Grows.on (h : g.Grows g') : g.GrowsOn P g' where
  records := h.records
  size := h.size
  evaluating n _ := h.evaluating n trivial
  node n _ := h.node n trivial
  busy n _ := h.busy n trivial
  clean n _ := h.clean n trivial
  frame n _ := h.frame n trivial

/-- Only how often it is held and who listens to it has changed anywhere. -/
theorem GrowsOn.of_core (hrecords : g'.records = g.records) (hsize : g.cells.size ≤ g'.cells.size)
    (hcore : ∀ n, P n → n < g.cells.size → (g'.cell n).core = (g.cell n).core) : g.GrowsOn P g' where
  records := hrecords
  size := hsize
  evaluating n hP hn := congrArg (·.2.2.2) (hcore n hP hn)
  node n hP hn _ := congrArg (·.1) (hcore n hP hn)
  busy n hP hn _ := congrArg (·.2.2.1) (hcore n hP hn)
  clean n hP hn hclean :=
    ⟨(congrArg (·.2.2.1) (hcore n hP hn)).trans hclean, congrArg (·.2.1) (hcore n hP hn)⟩
  frame n hP hn := congrArg (·.1.frame) (hcore n hP hn)

theorem Coherent.mono (h : g.Coherent told) (htold : ∀ n ∈ told, n ∈ told') : g.Coherent told' :=
  ⟨h.cached, fun n hn hclean hnot => h.fresh n hn hclean fun hmem => hnot (htold n hmem)⟩

/-- No node has come to life, and those that grow clean meanwhile are right. -/
theorem Coherent.grows (h : g.Coherent told) (hg : g.Grows g')
    (hnew : ∀ n, 0 < (g'.cell n).owners → (g'.cell n).dirty = false →
      (0 < (g.cell n).owners ∧ (g.cell n).dirty = false) ∨ g'.Fresh n) : g'.Coherent told where
  cached n hn hclean := by
    rcases hnew n hn hclean with ⟨hn', hclean'⟩ | hfresh
    · rw [(hg.clean n trivial (lt_size_of_owners_pos hn') hclean').2]
      exact h.cached n hn' hclean'
    · obtain ⟨v, hv, -⟩ := hfresh.value
      exact ⟨v, hv⟩
  fresh n hn hclean hnot := by
    rcases hnew n hn hclean with ⟨hn', hclean'⟩ | hfresh
    · exact (h.fresh n hn' hclean' hnot).grows hg hclean'
    · exact hfresh

theorem Anchored.mono (h : g.Anchored ext n) (hext : ∀ x ∈ ext, x ∈ ext') : g.Anchored ext' n := by
  induction h with
  | outside h => exact .outside (hext _ h)
  | member hr h => exact .member hr h
  | dependency _ hn hd ih => exact .dependency ih hn hd

theorem Anchored.live (h : g.Anchored ext n) (ha : g.Accounts ext) : 0 < (g.cell n).owners := by
  induction h with
  | outside h => exact ha.node_live h
  | @member r n hr h =>
    have := tally_pos_of_record hr h
    have := ha.nodes n
    omega
  | dependency _ _ hd ih => exact ha.dependency_live ih hd

/-- Formulas that wait to be built anchor nothing. -/
theorem Anchored.of_steady (h : g.Anchored ext n) (ha : g.Accounts ext) (hrecords : g'.records = g.records)
    (hnode : ∀ m, 0 < (g.cell m).owners → (g.node m).isPending = false → g'.node m = g.node m) :
    g'.Anchored ext n := by
  induction h with
  | outside h => exact .outside h
  | member hr h =>
    rw [record, ← hrecords] at hr h
    exact .member hr h
  | @dependency n d h hn hd ih =>
    have hsame := hnode n (h.live ha) hn
    rw [← hsame] at hn
    rw [dependencies, ← hsame] at hd
    exact .dependency ih hn hd

theorem Anchored.grows (h : g.Anchored ext n) (ha : g.Accounts ext) (hg : g.Grows g') :
    g'.Anchored ext n :=
  h.of_steady ha hg.records fun m hm hn => hg.node m trivial (lt_size_of_owners_pos hm) (.inl hn)

/-- The books are right, and so is what is kept. -/
structure Sound (g : Graph) (ext : List Hold) (told : List NodeId) : Prop where
  accounts : g.Accounts ext
  coherent : g.Coherent told

end Graph

end FormulaGraph
