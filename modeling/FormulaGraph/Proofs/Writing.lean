import FormulaGraph.Proofs.Telling

/-! Writing to a node. Exactly the nodes that depend on it are dirty afterwards, besides those that were so before,
and exactly the callbacks with the nodes that have turned dirty are called. -/

namespace FormulaGraph

open FormulaGraph.Graph Relation

namespace Graph

variable {g : Graph} {n m : NodeId} {node : Node} {turned : List NodeId} {ext : List Hold}

/-- What a clean node leads to is clean. -/
theorem Sound.clean_below (h : g.Sound ext []) (hm : 0 < (g.cell m).owners) (hclean : (g.cell m).dirty = false)
    (hreaches : ReflTransGen g.Uses m n) : (g.cell n).dirty = false := by
  suffices hn : 0 < (g.cell n).owners ∧ (g.cell n).dirty = false from hn.2
  induction hreaches with
  | refl => exact ⟨hm, hclean⟩
  | tail _ hd ih =>
    exact ⟨h.accounts.dependency_live ih.1 hd, (h.coherent.fresh _ ih.1 ih.2 List.not_mem_nil).1 _ hd⟩

/-- One hold of several is given up. -/
theorem release_of_shared {k : Nat} (h : (g.cell n).owners = k + 2) : g.release [.node n] = g.setOwners n (k + 1) := by
  rw [release]
  split
  next hz => omega
  next left hleft =>
    obtain rfl : left = k + 1 := by omega
    rw [freed, if_neg (Nat.succ_ne_zero k)]
    simp only [List.append_nil, release]

/-- The graph while the listeners are told: the node is another one and dirty, and is held. -/
def written (g : Graph) (n : NodeId) (node : Node) : Graph :=
  ((g.modifyCell n fun c => { c with node }).dirtied n).2.retain (.node n)

theorem cell_written (hn : n < g.cells.size) (m : NodeId) : (g.written n node).cell m =
    if m = n then { g.cell n with node, dirty := true, owners := (g.cell n).owners + 1 } else g.cell m := by
  simp only [written, dirtied, retain, setOwners, touch]
  by_cases hm : m = n
  · subst hm
    simp [cell_modifyCell_self, hn]
  · simp [cell_modifyCell_of_ne, hm]

theorem size_written : (g.written n node).cells.size = g.cells.size := by
  simp [written, dirtied, retain, setOwners, touch]

theorem isLive_written (hn : 0 < (g.cell n).owners) (m : NodeId) : (g.written n node).isLive m = g.isLive m := by
  rw [isLive, isLive, cell_written (lt_size_of_owners_pos hn)]
  split
  next hm =>
    rw [hm, decide_eq_true hn]
    exact decide_eq_true (Nat.succ_pos _)
  · rfl

theorem listeners_written (hn : n < g.cells.size) (m : NodeId) :
    ((g.written n node).cell m).listeners = (g.cell m).listeners := by
  rw [cell_written hn]
  split
  next hm => rw [hm]
  · rfl

/-- Once those in between have turned dirty and the node is no longer held. -/
theorem cell_release_written (hn : 0 < (g.cell n).owners) (m : NodeId) :
    ((((g.written n node).touchAll turned).release [.node n]).cell m) =
      if m = n then { g.cell n with node, dirty := true }
      else if m ∈ turned ∧ m < g.cells.size then { g.cell m with dirty := true } else g.cell m := by
  have hlt := lt_size_of_owners_pos hn
  have hcell : ∀ m, ((g.written n node).touchAll turned).cell m =
      if m = n then { g.cell n with node, dirty := true, owners := (g.cell n).owners + 1 }
      else if m ∈ turned ∧ m < g.cells.size then { g.cell m with dirty := true } else g.cell m := fun m => by
    rw [cell_touchAll, size_written, cell_written hlt]
    by_cases hm : m = n
    · simp [hm]
    · simp [hm]
  have howners : (((g.written n node).touchAll turned).cell n).owners = (g.cell n).owners + 1 := by
    rw [hcell, if_pos rfl]
  obtain ⟨k, hk⟩ := Nat.exists_eq_add_of_lt hn
  rw [Nat.zero_add] at hk
  rw [hk] at howners
  have hsize : n < ((g.written n node).touchAll turned).cells.size :=
    lt_size_of_owners_pos (by rw [howners]; exact Nat.succ_pos _)
  rw [release_of_shared howners, setOwners, cell_modifyCell, hcell, hcell]
  by_cases hm : m = n
  · simp [hm, hsize, hk]
  · simp [hm]

end Graph

namespace Workspace

variable {w : Workspace} {n : NodeId} {step : Step}

/-- A step that writes something new to a node with a name. -/
inductive Writes (w : Workspace) (n : NodeId) : Step → Prop
  | value {id : String} {old new : Value} : w.handles[id]? = some n → w.graph.node n = .input old →
    (old == new) = false → Writes w n (.set id new)
  | formula {id text : String} {scope : RecordId} {source : Source} : w.handles[id]? = some n →
    w.graph.node n = .expression scope source → source.text ≠ text → Writes w n (.setFormula id text)

theorem Writes.handle (h : w.Writes n step) : ∃ id : String, w.handles[id]? = some n := by
  cases h with
  | value hid | formula hid => exact ⟨_, hid⟩

theorem nodeNamed_of_handle {id : String} (h : w.handles[id]? = some n) : w.nodeNamed id = .ok n := by
  rw [nodeNamed, h]

/-- The node comes to be another one that reads the same, and its listeners are told. -/
theorem Writes.advance (h : w.Writes n step) : ∃ node : Node, node.dependencies = w.graph.dependencies n ∧
    w.advance (.perform step) =
      (((w.graph.modifyCell n fun c => { c with node }).dirtied n).1.map .tell ++
          [.release [.node n], .reply (.done true)], { w with graph := w.graph.written n node }) := by
  cases h with
  | @value id old new hid hnode hne =>
    refine ⟨.input new, by rw [dependencies, hnode]; rfl, ?_⟩
    have hset : w.graph.setInput n new =
        .ok ((w.graph.modifyCell n fun c => { c with node := .input new }).dirtied n) := by
      rw [setInput, hnode]
      dsimp only
      rw [hne]
      rfl
    have hperform : w.perform (.set id new) = .ok (w.edit n (w.graph.setInput n new)) := by
      rw [perform, nodeNamed_of_handle hid]
      rfl
    rw [Workspace.advance, hperform, hset]
    rfl
  | @formula id text scope source hid hnode hne =>
    refine ⟨.expression scope (source.edit text), ?_, ?_⟩
    · rw [dependencies, hnode, Node.dependencies, tree?_edit, Node.dependencies]
    · have hset : w.graph.setFormula n text =
          .ok ((w.graph.modifyCell n fun c => { c with node := .expression scope (source.edit text) }).dirtied n) := by
        rw [setFormula, hnode]
        dsimp only
        rw [if_neg hne]
      have hperform : w.perform (.setFormula id text) = .ok (w.edit n (w.graph.setFormula n text)) := by
        rw [perform, nodeNamed_of_handle hid]
        rfl
      rw [Workspace.advance, hperform, hset]
      rfl

/-- The scripts of the callbacks that are there leave the graph alone. -/
def AllUnobtrusive (w : Workspace) : Prop :=
  ∀ m key watch, key ∈ w.graph.callbacks m → w.watches[key]? = some watch → Unobtrusive watch.script

/-- What a write comes to: `turned` have turned dirty with the node, and `called` have been called. -/
structure Wrote (w w' : Workspace) (n : NodeId) (node : Node) (turned : List NodeId) (called : List Nat) : Prop where
  graph : w'.graph = ((w.graph.written n node).touchAll turned).release [.node n]
  wasClean (m : NodeId) : m ∈ turned →
    m ≠ n ∧ ReflTransGen w.graph.Uses m n ∧ w.graph.isLive m = true ∧ (w.graph.cell m).dirty = false
  fired : w'.fired.map some = called.map w.callback? ++ w.fired.map some
  nodup : called.Nodup
  mem (key : Nat) : key ∈ called ↔ ∃ m ∈ n :: turned, key ∈ w.graph.callbacks m

/-- Whoever listens to something above the node is above it too, or a callback that leaves the graph alone. -/
theorem heeds_of_listens {rest : List Hold} {told : List NodeId} {node : Node} {m : NodeId} {l : Listener}
    (hsound : w.Sound rest told) (hattended : w.graph.Attended w.watches.size) (hscripts : w.AllUnobtrusive)
    (hn : 0 < (w.graph.cell n).owners) (hm : ReflTransGen w.graph.Uses m n)
    (hl : l ∈ (w.graph.cell m).listeners.listeners) :
    Heeds { w with graph := w.graph.written n node } (ReflTransGen w.graph.Uses · n) l := by
  cases l with
  | node d =>
    intro hd
    rw [isLive_written hn, isLive, decide_eq_true_eq] at hd
    exact .head (hattended.uses hsound.accounts hd hl) hm
  | callback key =>
    have hkey : key ∈ w.graph.callbacks m := List.mem_filterMap.mpr ⟨_, hl, rfl⟩
    obtain ⟨i, generation, hregistered⟩ := mem_callbacks.mp hkey
    have hsize := hattended.callback _ key hregistered
    exact ⟨w.watches[key], Array.getElem?_eq_getElem hsize,
      hscripts m key _ hkey (Array.getElem?_eq_getElem hsize)⟩

theorem Writes.exists_wrote (h : w.Writes n step) {rest : List Hold} {told : List NodeId} (hsound : w.Sound rest told)
    (hattended : w.graph.Attended w.watches.size) (hscripts : w.AllUnobtrusive) :
    ∃ w' node turned called, node.dependencies = w.graph.dependencies n ∧ w.Does [.perform step] w' ∧
      Wrote w w' n node turned called := by
  obtain ⟨id, hid⟩ := h.handle
  have hn : 0 < (w.graph.cell n).owners :=
    hsound.accounts.node_live (List.mem_append_right _ (mem_holds_of_handle hid))
  have hlt := lt_size_of_owners_pos hn
  obtain ⟨node, hdependencies, hadvance⟩ := h.advance
  have hlistening : ((w.graph.modifyCell n fun c => { c with node }).dirtied n).1.filterMap Listener.key? =
      w.graph.callbacks n := by
    rw [dirtied, filterMap_key?_listening, callbacks_touch, callbacks,
      cell_modifyCell_congr Cell.listeners (by exact fun _ => rfl), callbacks]
  have hmem : ∀ l ∈ ((w.graph.modifyCell n fun c => { c with node }).dirtied n).1,
      l ∈ (w.graph.cell n).listeners.listeners := fun l hl => by
    have hl := (List.mem_filter.mp hl).1
    rwa [listeners_touch, cell_modifyCell_congr Cell.listeners (by exact fun _ => rfl)] at hl
  obtain ⟨w₂, turned, called, hdoes, hspreads, hperm⟩ := exists_spreads
    (w := { w with graph := w.graph.written n node }) (D := (ReflTransGen w.graph.Uses · n))
    ((w.graph.modifyCell n fun c => { c with node }).dirtied n).1
    (fun m l hm hl => heeds_of_listens hsound hattended hscripts hn hm (listeners_written hlt m ▸ hl))
    (fun l hl => heeds_of_listens hsound hattended hscripts hn .refl (hmem l hl))
  have hturned : ∀ m ∈ turned, m ≠ n := by
    intro m hm hmn
    have hclean := (hspreads.wasClean m hm).2.2
    rw [cell_written hlt, if_pos hmn] at hclean
    cases hclean
  have hcallbacks : (w.graph.written n node).callbacks = w.graph.callbacks := by
    funext m
    rw [callbacks, callbacks, listeners_written hlt]
  have hall : called.Perm ((n :: turned).flatMap w.graph.callbacks) := by
    rw [hlistening, hcallbacks] at hperm
    exact hperm
  refine ⟨{ w₂ with graph := w₂.graph.release [.node n] }.note (.answered (.done true)), node, turned, called,
    hdependencies, .step ?_, ?_⟩
  · rw [hadvance, List.append_nil]
    exact hdoes.append (.step (.step (.nil _)))
  · exact
      { graph := congrArg (·.release [.node n]) hspreads.graph
        wasClean := fun m hm => by
          obtain ⟨hreaches, hlive, hclean⟩ := hspreads.wasClean m hm
          rw [isLive_written hn] at hlive
          rw [cell_written hlt, if_neg (hturned m hm)] at hclean
          exact ⟨hturned m hm, hreaches, hlive, hclean⟩
        fired := hspreads.fired
        nodup := hall.nodup_iff.mpr (hattended.nodup_callbacks
          (List.nodup_cons.mpr ⟨fun hmem => hturned n hmem rfl, hspreads.nodup⟩))
        mem := fun key => hall.mem_iff.trans List.mem_flatMap }

section

variable {w' : Workspace} {node : Node} {turned : List NodeId} {called : List Nat}

theorem Wrote.cell (h : Wrote w w' n node turned called) (hn : 0 < (w.graph.cell n).owners) (m : NodeId) :
    w'.graph.cell m = if m = n then { w.graph.cell n with node, dirty := true }
      else if m ∈ turned ∧ m < w.graph.cells.size then { w.graph.cell m with dirty := true } else w.graph.cell m := by
  rw [h.graph, cell_release_written hn]

/-- A write changes what a node is and which nodes are dirty. -/
theorem Wrote.cell_congr {β : Type} (h : Wrote w w' n node turned called) (hn : 0 < (w.graph.cell n).owners)
    (π : Cell → β) (hπ : ∀ c node, π { c with node, dirty := true } = π c) (m : NodeId) :
    π (w'.graph.cell m) = π (w.graph.cell m) := by
  rw [h.cell hn]
  split
  next hm => rw [hm, hπ]
  next =>
    split
    · exact hπ (w.graph.cell m) (w.graph.cell m).node
    · rfl

theorem Wrote.uses (h : Wrote w w' n node turned called) (hn : 0 < (w.graph.cell n).owners)
    (hdependencies : node.dependencies = w.graph.dependencies n) : w'.graph.Uses = w.graph.Uses := by
  funext m d
  rw [Uses, Uses, dependencies, Graph.node, h.cell hn]
  split
  next hm => rw [hdependencies, hm]
  next => split <;> rfl

theorem Wrote.dirty_iff (h : Wrote w w' n node turned called) (hn : 0 < (w.graph.cell n).owners) (m : NodeId) :
    (w'.graph.cell m).dirty = true ↔ (w.graph.cell m).dirty = true ∨ m ∈ n :: turned := by
  rw [h.cell hn, List.mem_cons]
  by_cases hm : m = n
  · simp [hm]
  · by_cases hmem : m ∈ turned
    · have hlt := lt_size_of_owners_pos (of_decide_eq_true (h.wasClean m hmem).2.2.1)
      simp [hm, hmem, hlt]
    · simp [hm, hmem]

/-- No clean node reads a dirty one afterwards, so whatever leads to the node is dirty with it. -/
theorem Wrote.dirty_iff_dependsOn (h : Wrote w w' n node turned called) (hn : 0 < (w.graph.cell n).owners)
    (hdependencies : node.dependencies = w.graph.dependencies n) (hsound : w'.Sound [] []) {m : NodeId}
    (hm : w.graph.isLive m = true) : (w'.graph.cell m).dirty = true ↔
      (w.graph.cell m).dirty = true ∨ m = n ∨ w.graph.dependsOn m n = true := by
  have hdirty := h.dirty_iff hn
  constructor
  · intro hm'
    rcases (hdirty m).mp hm' with hold | hmem
    · exact .inl hold
    · rcases List.mem_cons.mp hmem with hmn | hmem
      · exact .inr (.inl hmn)
      · exact .inr (.inr (dependsOn_iff.mpr (h.wasClean m hmem).2.1))
  · rintro (hold | hmn | hdepends)
    · exact (hdirty m).mpr (.inl hold)
    · exact (hdirty m).mpr (.inr (hmn ▸ List.mem_cons_self))
    · by_contra hclean
      rw [Bool.not_eq_true] at hclean
      have hlive : 0 < (w'.graph.cell m).owners := by
        rw [h.cell_congr hn Cell.owners (by exact fun _ _ => rfl)]
        exact of_decide_eq_true hm
      have hreaches : ReflTransGen w'.graph.Uses m n := by
        rw [h.uses hn hdependencies]
        exact dependsOn_iff.mp hdepends
      have hclean' := Sound.clean_below hsound hlive hclean hreaches
      rw [(hdirty n).mpr (.inr List.mem_cons_self)] at hclean'
      cases hclean'

/-- The callbacks that are called are those with the node and with what has turned dirty. -/
theorem Wrote.mem_iff (h : Wrote w w' n node turned called) (hn : 0 < (w.graph.cell n).owners) (key : Nat) :
    key ∈ called ↔ ∃ m, key ∈ w.graph.callbacks m ∧
      (m = n ∨ w.graph.isLive m = true ∧ (w.graph.cell m).dirty = false ∧ (w'.graph.cell m).dirty = true) := by
  have hdirty := h.dirty_iff hn
  rw [h.mem]
  constructor
  · rintro ⟨m, hm, hkey⟩
    refine ⟨m, hkey, ?_⟩
    rcases List.mem_cons.mp hm with hmn | hmem
    · exact .inl hmn
    · obtain ⟨-, -, hlive, hclean⟩ := h.wasClean m hmem
      exact .inr ⟨hlive, hclean, (hdirty m).mpr (.inr hm)⟩
  · rintro ⟨m, hkey, hmn | ⟨-, hclean, hm⟩⟩
    · exact ⟨m, hmn ▸ List.mem_cons_self, hkey⟩
    · rcases (hdirty m).mp hm with hold | hmem
      · rw [hclean] at hold
        cases hold
      · exact ⟨m, hmem, hkey⟩

end

/-- In every state that is reached, and if the scripts of the callbacks leave the graph alone: a write that changes
something comes to an end, the live nodes that are dirty then are those that were, the node itself and those that
depend on it, each callback with the node or with one that has turned dirty is called once and no other, and
nothing is worked out. -/
theorem dirty_of_write {limit : Nat} {steps : List Step}
    (h : Workspace.run limit {} (steps.map .perform) = some w) (hscripts : w.AllUnobtrusive)
    (hwrites : w.Writes n step) :
    ∃ (w' : Workspace) (called : List Nat),
      (∃ bound, ∀ limit, bound ≤ limit → w.run limit [.perform step] = some w') ∧
      (∀ m, w'.graph.isLive m = w.graph.isLive m) ∧
      (∀ m, w.graph.isLive m = true → ((w'.graph.cell m).dirty = true ↔
        (w.graph.cell m).dirty = true ∨ m = n ∨ w.graph.dependsOn m n = true)) ∧
      w'.fired.map some = called.map w.callback? ++ w.fired.map some ∧ called.Nodup ∧
      (∀ key, key ∈ called ↔ ∃ m, key ∈ w.graph.callbacks m ∧
        (m = n ∨ w.graph.isLive m = true ∧ (w.graph.cell m).dirty = false ∧ (w'.graph.cell m).dirty = true)) ∧
      ∀ m, (w'.graph.cell m).evaluations = (w.graph.cell m).evaluations := by
  have hsound := sound_of_run h
  obtain ⟨id, hid⟩ := hwrites.handle
  have hn : 0 < (w.graph.cell n).owners :=
    hsound.accounts.node_live (List.mem_append_right _ (mem_holds_of_handle hid))
  obtain ⟨w', node, turned, called, hdependencies, ⟨bound, hrun⟩, hwrote⟩ :=
    hwrites.exists_wrote hsound (attended_of_run h) hscripts
  have hsound' : w'.Sound [] [] := run_sound hsound hrun
  refine ⟨w', called, ⟨bound, fun limit hle => run_mono hrun hle⟩, fun m => ?_,
    fun m hm => hwrote.dirty_iff_dependsOn hn hdependencies hsound' hm, hwrote.fired, hwrote.nodup,
    hwrote.mem_iff hn, hwrote.cell_congr hn Cell.evaluations (by exact fun _ _ => rfl)⟩
  rw [isLive, isLive, hwrote.cell_congr hn Cell.owners (by exact fun _ _ => rfl)]

theorem allUnobtrusive_of_all (h : (w.watches.all fun watch => watch.script.all Step.asks) = true) :
    w.AllUnobtrusive := by
  intro m key watch _ hwatch
  obtain ⟨hlt, rfl⟩ := Array.getElem?_eq_some_iff.mp hwatch
  exact unobtrusive_of_asks fun step hstep => List.all_eq_true.mp (Array.all_eq_true.mp h key hlt) step hstep

/-- "d" reads "a" in two ways, and is watched by one that asks. -/
def watchedSteps : List Step :=
  [.record "r" none, .input "r" "a" "a" (.bool true), .expression "r" "b" "b" "!a",
    .expression "r" "d" "d" "b || a && b", .read "d", .watch "x" "d" [.states, .depends "d" "a"]]

theorem dirty_of_watched_write :
    ∃ w n d, Workspace.run 100 {} (watchedSteps.map .perform) = some w ∧ w.AllUnobtrusive ∧
      w.Writes n (.set "a" (.bool false)) ∧ w.handles["d"]? = some d ∧ (w.graph.cell d).dirty = false ∧
        ∃ w' bound, w.run bound [.perform (.set "a" (.bool false))] = some w' ∧ (w'.graph.cell d).dirty = true ∧
          "x" ∈ w'.fired := by
  have hrun : ((Workspace.run 100 {} (watchedSteps.map .perform)).bind fun w =>
      w.handles["a"]?.bind fun n => w.handles["d"]?.map fun d =>
        (w.watches.all (fun watch => watch.script.all Step.asks),
          (w.graph.setInput n (.bool false)).toOption.map (fun edited => edited.1.isEmpty),
          w.graph.isLive d && w.graph.dependsOn d n && !(w.graph.cell d).dirty,
          w.graph.callbacks d, w.callback? 0)) = some (true, some false, true, [0], some "x") := by
    decide +kernel
  obtain ⟨w, hw, hrun⟩ := Option.bind_eq_some_iff.mp hrun
  obtain ⟨n, hn, hrun⟩ := Option.bind_eq_some_iff.mp hrun
  obtain ⟨d, hd, hrun⟩ := Option.map_eq_some_iff.mp hrun
  simp only [Prod.mk.injEq, Bool.and_eq_true, Bool.not_eq_true'] at hrun
  obtain ⟨hall, hinput, ⟨⟨hlive, hdepends⟩, hclean⟩, hcallbacks, hname⟩ := hrun
  have hscripts := allUnobtrusive_of_all hall
  have hwrites : w.Writes n (.set "a" (.bool false)) := by
    rw [setInput] at hinput
    cases hnode : w.graph.node n with
    | input old =>
      refine .value hn hnode (Bool.eq_false_iff.mpr fun hsame => ?_)
      rw [hnode] at hinput
      dsimp only at hinput
      rw [if_pos hsame] at hinput
      cases hinput
    | constant | calculation | expression =>
      rw [hnode] at hinput
      cases hinput
  obtain ⟨w', called, ⟨bound, hdone⟩, -, hdirty, hfired, -, hcalled, -⟩ := dirty_of_write hw hscripts hwrites
  have hturned := (hdirty d hlive).mpr (.inr (.inr hdepends))
  have hmem : 0 ∈ called :=
    (hcalled 0).mpr ⟨d, hcallbacks ▸ List.mem_singleton_self 0, .inr ⟨hlive, hclean, hturned⟩⟩
  have hx : some "x" ∈ w'.fired.map some := by
    rw [hfired, ← hname]
    exact List.mem_append_left _ (List.mem_map_of_mem hmem)
  obtain ⟨x, hx, he⟩ := List.mem_map.mp hx
  exact ⟨w, n, d, hw, hscripts, hwrites, hd, hclean, w', bound, hdone bound (Nat.le_refl _), hturned,
    Option.some.inj he ▸ hx⟩

end Workspace

end FormulaGraph
