import FormulaGraph.Proofs.Enduring
import Mathlib.Data.Finset.Card

/-! Nothing comes to read itself. A tree is put in place only if it does not lead back to its expression, and
nothing else is done between the search and that. -/

namespace FormulaGraph

open Relation

namespace Graph

/-- Nodes read nodes that are there, and none reads itself through others. -/
structure Orderly (g : Graph) : Prop where
  within (n d : NodeId) : g.Uses n d → d < g.cells.size
  acyclic (n : NodeId) : ¬ TransGen g.Uses n n

variable {g g' : Graph} {n m d root : NodeId}

/-- A way from `a` to `b` is an old one or leads over the new dependency. -/
theorem way_of_new (hnew : ∀ x y, g'.Uses x y → g.Uses x y ∨ x = n ∧ y = root)
    (hfree : ¬ ReflTransGen g.Uses root n) {a b : NodeId} (h : TransGen g'.Uses a b) :
    TransGen g.Uses a b ∨ ReflTransGen g.Uses a n ∧ ReflTransGen g.Uses root b := by
  induction h with
  | single hstep =>
    rcases hnew _ _ hstep with hold | ⟨rfl, rfl⟩
    · exact .inl (.single hold)
    · exact .inr ⟨.refl, .refl⟩
  | tail _ hstep ih =>
    rcases hnew _ _ hstep with hold | ⟨rfl, rfl⟩
    · rcases ih with hway | ⟨hto, hfrom⟩
      · exact .inl (hway.tail hold)
      · exact .inr ⟨hto, hfrom.tail hold⟩
    · rcases ih with hway | ⟨-, hfrom⟩
      · exact .inr ⟨hway.to_reflTransGen, .refl⟩
      · exact (hfree hfrom).elim

theorem Orderly.install {scope : RecordId} {tree : Tree} (h : g.Orderly) (hroot : tree.root < g.cells.size)
    (hfree : ¬ ReflTransGen g.Uses tree.root n) :
    (g.modifyCell n fun c => { c with node := .expression scope (.built tree) }).Orderly := by
  have hnew : ∀ x y, (g.modifyCell n fun c =>
      { c with node := .expression scope (.built tree) }).Uses x y → g.Uses x y ∨ x = n ∧ y = tree.root := by
    intro x y hxy
    rw [Uses, dependencies, node, cell_modifyCell] at hxy
    split at hxy
    next hx => exact .inr ⟨hx.1, List.mem_singleton.mp hxy⟩
    next => exact .inl hxy
  refine ⟨fun x y hxy => ?_, fun x hx => ?_⟩
  · rw [size_modifyCell]
    rcases hnew x y hxy with hold | ⟨-, rfl⟩
    · exact h.within x y hold
    · exact hroot
  · rcases way_of_new hnew hfree hx with hold | ⟨hto, hfrom⟩
    · exact h.acyclic x hold
    · exact hfree (hfrom.trans hto)

/-- No node that was there reads the new one. -/
theorem Orderly.addCell {node : Node} (h : g.Orderly) (cache : Option Value)
    (hnode : ∀ d ∈ node.dependencies, d < g.cells.size) : (g.addCell node cache).2.Orderly := by
  have huses : ∀ x y, (g.addCell node cache).2.Uses x y →
      y < g.cells.size ∧ (x = g.cells.size ∨ g.Uses x y) := by
    intro x y hxy
    rw [Uses, dependencies, Graph.node, cell_addCell] at hxy
    split at hxy
    next hx => exact ⟨hnode y hxy, .inl hx⟩
    next => exact ⟨h.within x y hxy, .inr hxy⟩
  have hold : ∀ {a b}, TransGen (g.addCell node cache).2.Uses a b → a ≠ g.cells.size → TransGen g.Uses a b := by
    intro a b hab ha
    induction hab with
    | single hstep => exact .single ((huses _ _ hstep).2.resolve_left ha)
    | @tail b c hab hstep ih =>
      have hb : b ≠ g.cells.size := by
        obtain ⟨x, -, hx⟩ := TransGen.tail'_iff.mp hab
        exact Nat.ne_of_lt (huses x b hx).1
      exact ih.tail ((huses _ _ hstep).2.resolve_left hb)
  refine ⟨fun x y hxy => ?_, fun x hx => ?_⟩
  · rw [size_addCell]
    exact Nat.lt_succ_of_lt (huses x y hxy).1
  · obtain ⟨y, -, hyx⟩ := TransGen.tail'_iff.mp hx
    exact h.acyclic x (hold hx (Nat.ne_of_lt (huses y x hyx).1))

theorem Orderly.of_dependencies (h : g.Orderly) (hsize : g'.cells.size = g.cells.size)
    (hdependencies : ∀ m, g'.dependencies m = g.dependencies m) : g'.Orderly := by
  have huses : g'.Uses = g.Uses := by
    funext n d
    rw [Uses, hdependencies]
    rfl
  refine ⟨fun n d hd => ?_, fun n => ?_⟩
  · rw [hsize]
    rw [huses] at hd
    exact h.within n d hd
  · rw [huses]
    exact h.acyclic n

theorem endures_orderly : Endures fun _ g => g.Orderly where
  shape h hsize hdependencies _ := h.of_dependencies hsize hdependencies
  add cache h hnode := h.addCell cache hnode
  start n h := h.of_dependencies size_modifyCell fun m =>
    congrArg Node.dependencies (cell_modifyCell_congr Cell.node (by exact fun _ => rfl) m)
  finish h := h.of_dependencies size_modifyCell fun m =>
    congrArg Node.dependencies (cell_modifyCell_congr Cell.node (by exact fun _ => rfl) m)
  install h hroot hfree := h.install hroot hfree

theorem Orderly.read {ext : List Hold} {told : List NodeId} (ho : g.Orderly) (h : g.Sound ext told)
    (hn : g.Anchored ext n) : (g.read n).2.Orderly :=
  @Endures.read _ [] _ _ _ _ endures_orderly ho h hn

theorem Orderly.of_parse {ext : List Hold} {told : List NodeId} {r : RecordId} {text : String} (ho : g.Orderly)
    (h : g.Sound ext told) (hs : g.scopeIsLive r = true) (hparse : g.parse r text = (.ok root, g')) :
    g'.Orderly := by
  have hkept := @Endures.parse _ [] _ _ _ _ endures_orderly ho h hs text
  rwa [hparse] at hkept

/-- Numbers that fall along dependencies. There are no more of them than nodes. -/
theorem Orderly.exists_rank (h : g.Orderly) :
    ∃ rank : NodeId → Nat, (∀ n, n < g.cells.size → rank n < g.cells.size) ∧
      ∀ n d, g.Uses n d → rank d < rank n := by
  classical
  refine ⟨fun n => ((Finset.range g.cells.size).filter (TransGen g.Uses n)).card, fun n hn => ?_, fun n d hd => ?_⟩
  · refine (Finset.card_lt_card (Finset.ssubset_iff_of_subset (Finset.filter_subset _ _) |>.mpr ⟨n, ?_, ?_⟩)).trans_eq
      (Finset.card_range _)
    · exact Finset.mem_range.mpr hn
    · rw [Finset.mem_filter]
      exact fun hm => h.acyclic n hm.2
  · refine Finset.card_lt_card (Finset.ssubset_iff_of_subset ?_ |>.mpr ⟨d, ?_, ?_⟩)
    · intro m hm
      rw [Finset.mem_filter] at hm ⊢
      exact ⟨hm.1, .head hd hm.2⟩
    · rw [Finset.mem_filter, Finset.mem_range]
      exact ⟨h.within n d hd, .single hd⟩
    · rw [Finset.mem_filter]
      exact fun hm => h.acyclic d hm.2

/-- Only these are being worked out. -/
def BusyWith (busy : List NodeId) (g : Graph) : Prop := ∀ m, (g.cell m).evaluating = true → m ∈ busy

theorem busyWith_nil : BusyWith [] g ↔ ∀ m, (g.cell m).evaluating = false := by
  simp [BusyWith]

theorem lt_size_of_evaluating (h : (g.cell n).evaluating = true) : n < g.cells.size := by
  by_contra hn
  rw [cell, Array.getElem?_eq_none (Nat.le_of_not_lt hn)] at h
  cases h

theorem lt_size_of_dirty (h : (g.cell n).dirty = true) : n < g.cells.size := by
  by_contra hn
  rw [cell, Array.getElem?_eq_none (Nat.le_of_not_lt hn)] at h
  cases h

theorem endures_busyWith : Endures BusyWith where
  shape h _ _ hevaluating m hm := h m (by rwa [hevaluating] at hm)
  add {busy g node} cache h _ m hm := by
    rw [cell_addCell] at hm
    split at hm
    · cases hm
    · exact h m hm
  start {busy g} n h m hm := by
    by_cases hmn : m = n
    · exact hmn ▸ List.mem_cons_self
    · rw [cell_modifyCell_of_ne hmn] at hm
      exact List.mem_cons_of_mem _ (h m hm)
  finish {busy g n} h m hm := by
    by_cases hmn : m = n
    · have hlt := lt_size_of_evaluating hm
      rw [size_modifyCell] at hlt
      subst hmn
      rw [cell_modifyCell_self hlt] at hm
      cases hm
    · rw [cell_modifyCell_of_ne hmn] at hm
      exact (List.mem_cons.mp (h m hm)).resolve_left hmn
  install {busy g n scope tree} h _ _ m hm := h m (by
    rwa [cell_modifyCell_congr Cell.evaluating (by exact fun _ => rfl)] at hm)

end Graph

namespace Workspace

variable {w : Workspace}

theorem cell_empty (n : NodeId) : ({} : Graph).cell n = Cell.absent := by simp [Graph.cell]

theorem orderly_empty : ({} : Graph).Orderly := by
  have hnone : ∀ n d, ¬ ({} : Graph).Uses n d := fun n d hd => by
    rw [Graph.Uses, Graph.dependencies, Graph.node, cell_empty] at hd
    cases hd
  refine ⟨fun n d hd => (hnone n d hd).elim, fun n hn => ?_⟩
  obtain ⟨d, hd, -⟩ := TransGen.head'_iff.mp hn
  exact hnone n d hd

theorem orderly_of_run {limit : Nat} {steps : List Step}
    (h : Workspace.run limit {} (steps.map .perform) = some w) : w.graph.Orderly :=
  (endures_of_run Graph.endures_orderly orderly_empty h).2

theorem busyWith_empty : Graph.BusyWith [] {} := fun m hm => by
  rw [cell_empty] at hm
  cases hm

/-- Between steps nothing is being worked out. -/
theorem idle_of_run {limit : Nat} {steps : List Step}
    (h : Workspace.run limit {} (steps.map .perform) = some w) (n : NodeId) :
    (w.graph.cell n).evaluating = false :=
  Graph.busyWith_nil.mp (endures_of_run Graph.endures_busyWith busyWith_empty h).2 n

end Workspace

end FormulaGraph
