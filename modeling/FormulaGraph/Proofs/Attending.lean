import FormulaGraph.Proofs.Enduring
import Mathlib.Data.List.Nodup

/-! Who listens. A node that is told of a change has a ticket for the place at which it listens, so that it reads
the node that changed; a callback that is told is the script of a watch. -/

namespace FormulaGraph

open FormulaGraph.Graph

/-- What a callback is called by. -/
def Listener.key? : Listener → Option Nat
  | .node _ => none
  | .callback key => some key

namespace Graph

variable {g g' : Graph} {k : Nat} {n m d root : NodeId} {l l' : Listener} {t : Ticket} {ext : List Hold}

/-- Each place is that of a node with the ticket for it, or of one of `k` watches, which has no other. -/
structure Attended (k : Nat) (g : Graph) : Prop where
  node (t : Ticket) (m : NodeId) : g.Registered t (.node m) → t ∈ (g.node m).tickets
  callback (t : Ticket) (key : Nat) : g.Registered t (.callback key) → key < k
  once (t t' : Ticket) (key : Nat) : g.Registered t (.callback key) → g.Registered t' (.callback key) →
    t.source = t'.source ∧ t.slot = t'.slot

/-- Whoever has come to listen is a node with a ticket, and the tickets of others are still there. -/
theorem Attended.of_registered (h : g.Attended k)
    (hregistered : ∀ t l, g'.Registered t l →
      g.Registered t l ∨ ∃ m, l = .node m ∧ t ∈ (g'.node m).tickets)
    (htickets : ∀ t m, g'.Registered t (.node m) → t ∈ (g.node m).tickets → t ∈ (g'.node m).tickets) :
    g'.Attended k := by
  have hcallback : ∀ t key, g'.Registered t (.callback key) → g.Registered t (.callback key) := by
    intro t key ht
    rcases hregistered t _ ht with hold | ⟨m, hm, -⟩
    · exact hold
    · cases hm
  refine ⟨fun t m ht => ?_, fun t key ht => h.callback t key (hcallback t key ht),
    fun t t' key ht ht' => h.once t t' key (hcallback t key ht) (hcallback t' key ht')⟩
  rcases hregistered t _ ht with hold | ⟨m', hm', hmem⟩
  · exact htickets t m ht (h.node t m hold)
  · cases hm'
    exact hmem

theorem Attended.wanes (h : g.Attended k) (hw : g.Wanes g') : g'.Attended k :=
  h.of_registered (fun t l ht => .inl (hw.listeners t l ht)) fun t m _ ht => by
    rw [hw.tickets]
    exact ht

/-- The mark of being worked out counts for nothing here. -/
theorem Attended.setEvaluating (h : g.Attended k) (evaluating : Bool) :
    (g.modifyCell n fun c => { c with evaluating }).Attended k := by
  refine h.of_registered (fun t l ht => .inl ?_) fun t m _ ht => ?_
  · rwa [Registered, cell_modifyCell_congr Cell.listeners (by exact fun _ => rfl)] at ht
  · rwa [Graph.node, cell_modifyCell_congr Cell.node (by exact fun _ => rfl)]

theorem registered_addCell {node : Node} {cache : Option Value}
    (h : (g.addCell node cache).2.Registered t l) : g.Registered t l := by
  rw [Registered, cell_addCell] at h
  split at h
  · simp [Arena.Holds] at h
  · exact h

theorem Attended.leaf {node : Node} (h : g.Attended k) (cache : Option Value) :
    (g.addCell node cache).2.Attended k := by
  refine h.of_registered (fun t l ht => .inl (registered_addCell ht)) fun t m _ ht => ?_
  rw [Graph.node, cell_addCell]
  split
  next hm =>
    rw [Graph.node, hm, cell_size] at ht
    cases ht
  next => exact ht

theorem registered_subscribe (h : (g.subscribe n l).2.Registered t l') :
    g.Registered t l' ∨ t = (g.subscribe n l).1 ∧ l' = l := by
  rw [subscribe, Registered, cell_modifyCell] at h
  split at h
  next hm =>
    rcases Arena.holds_of_insert h with hold | ⟨hplace, hl⟩
    · rw [Registered, hm.1]
      exact .inl hold
    · obtain ⟨hslot, hgeneration⟩ := Prod.mk.inj hplace
      refine .inr ⟨?_, hl⟩
      rw [subscribe]
      dsimp only
      rw [← hslot, ← hgeneration, ← hm.1]
  next => exact .inl h

theorem registered_subscribeAll {sources : List NodeId} (h : (g.subscribeAll sources l).2.Registered t l') :
    g.Registered t l' ∨ t ∈ (g.subscribeAll sources l).1 ∧ l' = l := by
  induction sources generalizing g with
  | nil => exact .inl h
  | cons source sources ih =>
    rw [subscribeAll] at h ⊢
    rcases ih h with hold | ⟨hmem, hl⟩
    · rcases registered_subscribe hold with hold | ⟨ht, hl⟩
      · exact .inl hold
      · exact .inr ⟨ht ▸ List.mem_cons_self, hl⟩
    · exact .inr ⟨List.mem_cons_of_mem _ hmem, hl⟩

/-- A calculation gets its tickets with the places at which it listens. -/
theorem Attended.calculation {operands : List NodeId} (h : g.Attended k) (operation : Operation) (offset : Nat) :
    (g.addCalculation operation operands offset).2.Attended k := by
  have halike : g.Alike (g.subscribeAll operands (.node g.cells.size)).2 := alike_subscribeAll operands _
  have hnode : ∀ m, (g.addCalculation operation operands offset).2.node m =
      if m = g.cells.size then
        .calculation operation operands offset (g.subscribeAll operands (.node g.cells.size)).1
      else g.node m := fun m => by
    rw [addCalculation, Graph.node, cell_addCell, halike.size]
    split
    · rfl
    · exact halike.node m
  refine h.of_registered (fun t l ht => ?_) fun t m _ ht => ?_
  · rcases registered_subscribeAll (registered_addCell ht) with hold | ⟨hmem, hl⟩
    · exact .inl hold
    · refine .inr ⟨g.cells.size, hl, ?_⟩
      rw [hnode, if_pos rfl]
      exact hmem
  · rw [hnode]
    split
    next hm =>
      rw [Graph.node, hm, cell_size] at ht
      cases ht
    next => exact ht

theorem Attended.watch (h : g.Attended k) (n : NodeId) : (g.subscribe n (.callback k)).2.Attended (k + 1) := by
  have hregistered : ∀ t key, (g.subscribe n (.callback k)).2.Registered t (.callback key) →
      g.Registered t (.callback key) ∧ key < k ∨ t = (g.subscribe n (.callback k)).1 ∧ key = k := by
    intro t key ht
    rcases registered_subscribe ht with hold | ⟨hplace, hl⟩
    · exact .inl ⟨hold, h.callback t key hold⟩
    · exact .inr ⟨hplace, Listener.callback.inj hl⟩
  refine ⟨fun t m ht => ?_, fun t key ht => ?_, fun t t' key ht ht' => ?_⟩
  · rw [(alike_subscribe _).node m]
    rcases registered_subscribe ht with hold | ⟨-, hl⟩
    · exact h.node t m hold
    · cases hl
  · rcases hregistered t key ht with ⟨-, hlt⟩ | ⟨-, rfl⟩
    · exact Nat.lt_succ_of_lt hlt
    · exact Nat.lt_succ_self _
  · rcases hregistered t key ht with ⟨hold, hlt⟩ | ⟨hplace, hkey⟩
    · rcases hregistered t' key ht' with ⟨hold', -⟩ | ⟨-, hkey⟩
      · exact h.once t t' key hold hold'
      · exact (Nat.ne_of_lt hlt hkey).elim
    · rcases hregistered t' key ht' with ⟨-, hlt⟩ | ⟨hplace', -⟩
      · exact (Nat.ne_of_lt hlt hkey).elim
      · rw [hplace, hplace']
        exact ⟨rfl, rfl⟩

/-- With its new tree the expression has a new place, and the old one is given up. -/
theorem Attended.install {scope : RecordId} {source : Source} (h : g.Attended k) (ha : g.Accounts ext)
    (hn : 0 < (g.cell n).owners) (hnode : g.node n = .expression scope source) (text : String) :
    ((installTree n scope text root source.tree?).run g).2.Attended k := by
  have halike : g.Alike (g.subscribe root (.node n)).2 := alike_subscribe _
  have hlt : n < (g.subscribe root (.node n)).2.cells.size := halike.size ▸ lt_size_of_owners_pos hn
  rw [run_installTree]
  generalize htree : (⟨text, root, (g.subscribe root (.node n)).1⟩ : Tree) = tree
  have hticket : tree.ticket = (g.subscribe root (.node n)).1 := htree ▸ rfl
  have hself : (((g.subscribe root (.node n)).2.modifyCell n fun c =>
      { c with node := .expression scope (.built tree) }).release (oldHolds source.tree?)).node n =
        .expression scope (.built tree) := by
    refine (congrArg (·.1) (core_release n)).trans ?_
    rw [Cell.core, cell_modifyCell_self hlt]
  have hother : ∀ m, m ≠ n → (((g.subscribe root (.node n)).2.modifyCell n fun c =>
      { c with node := .expression scope (.built tree) }).release (oldHolds source.tree?)).node m = g.node m := by
    intro m hm
    refine (congrArg (·.1) (core_release m)).trans ?_
    rw [Cell.core, cell_modifyCell_of_ne hm]
    exact halike.node m
  refine h.of_registered (fun t l ht => ?_) fun t m ht hmem => ?_
  · have hbefore := registered_of_release ht
    rw [Registered, cell_modifyCell_congr Cell.listeners (by exact fun _ => rfl)] at hbefore
    rcases registered_subscribe hbefore with hold | ⟨hplace, hl⟩
    · exact .inl hold
    · refine .inr ⟨n, hl, ?_⟩
      rw [hself, hplace, ← hticket]
      exact List.mem_singleton_self _
  · by_cases hm : m = n
    · rw [hm, hnode] at hmem
      obtain ⟨old, hold, rfl⟩ : ∃ old, source.tree? = some old ∧ old.ticket = t := by
        simpa [Node.tickets] using hmem
      have hlive : 0 < (g.cell old.ticket.source).owners := by
        refine ha.dependency_live hn ?_
        rw [← ha.sources n hn, hnode, Node.tickets, hold]
        exact List.mem_singleton_self _
      have hholds : oldHolds (some old) = [.ticket old.ticket, .node old.root] := rfl
      rw [hold, hholds, release] at ht
      refine (not_registered_unsubscribe ?_ (registered_of_release ht)).elim
      rw [cell_modifyCell_congr Cell.owners (by exact fun _ => rfl), owners_subscribe]
      exact hlive
    · rw [hother m hm]
      exact hmem

theorem outlasts_attended : Outlasts fun k _ g => g.Attended k where
  wanes h hw := h.wanes hw
  leaf cache h _ _ := h.leaf cache
  calculation operation offset h _ := h.calculation operation offset
  start _ h := h.setEvaluating true
  finish h := h.setEvaluating false
  install h ha hn hnode _ _ _ _ := h.install ha hn hnode _
  watch n h := h.watch n

/-- Whoever is told of a change reads what changed. -/
theorem Attended.uses (h : g.Attended k) (ha : g.Accounts ext) (hm : 0 < (g.cell m).owners)
    (hl : .node m ∈ (g.cell d).listeners.listeners) : g.Uses m d := by
  obtain ⟨i, generation, hholds⟩ := Arena.mem_listeners.mp hl
  have hticket := h.node ⟨d, i, generation⟩ m hholds
  rw [Uses, ← ha.sources m hm]
  exact List.mem_map_of_mem (f := Ticket.source) hticket

/-- The keys of the callbacks that a node tells of its changes. -/
def callbacks (g : Graph) (n : NodeId) : List Nat := (g.cell n).listeners.listeners.filterMap Listener.key?

theorem mem_callbacks {key : Nat} :
    key ∈ g.callbacks n ↔ ∃ i generation, g.Registered ⟨n, i, generation⟩ (.callback key) := by
  rw [callbacks, List.mem_filterMap]
  constructor
  · rintro ⟨l, hl, hkey⟩
    cases l with
    | node m => cases hkey
    | callback key' =>
      cases hkey
      exact Arena.mem_listeners.mp hl
  · rintro ⟨i, generation, h⟩
    exact ⟨.callback key, Arena.mem_listeners.mpr ⟨i, generation, h⟩, rfl⟩

theorem Attended.nodup_callbacks (h : g.Attended k) {nodes : List NodeId} (hnodes : nodes.Nodup) :
    (nodes.flatMap g.callbacks).Nodup := by
  rw [List.nodup_flatMap]
  refine ⟨fun n _ => Arena.nodup_filterMap_listeners fun i j generation generation' l l' b hl hl' hb hb' => ?_,
    hnodes.imp fun {n m} hne => List.disjoint_left.mpr fun key hn hm => ?_⟩
  · cases l with
    | node => cases hb
    | callback key =>
      cases l' with
      | node => cases hb'
      | callback key' =>
        cases hb
        cases hb'
        exact (h.once ⟨n, i, generation⟩ ⟨n, j, generation'⟩ b hl hl').2
  · obtain ⟨i, generation, hn⟩ := mem_callbacks.mp hn
    obtain ⟨j, generation', hm⟩ := mem_callbacks.mp hm
    exact hne (h.once _ _ key hn hm).1

end Graph

namespace Workspace

variable {w : Workspace}

theorem attended_of_run {limit : Nat} {steps : List Step}
    (h : Workspace.run limit {} (steps.map .perform) = some w) : w.graph.Attended w.watches.size := by
  have hnobody : ∀ t l, ¬ ({} : Graph).Registered t l := fun t l ht => by
    simp [Graph.Registered, Graph.cell, Cell.absent, Arena.Holds] at ht
  exact (outlasts_of_run Graph.outlasts_attended ⟨fun t m ht => (hnobody t _ ht).elim,
    fun t key ht => (hnobody t _ ht).elim, fun t _ key ht _ => (hnobody t _ ht).elim⟩ h).2

end Workspace

end FormulaGraph
