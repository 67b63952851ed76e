import FormulaGraph.Proofs.Tracing
import Mathlib.Data.List.Forall2

/-! Reading what has been worked out before. A clean node is read as it is, and a new calculation on clean
nodes is worked out at once. -/

namespace FormulaGraph

open FormulaGraph.Graph

namespace Graph

/-- The node is clean and has kept the value. -/
def Has (g : Graph) (n : NodeId) (v : Value) : Prop := (g.cell n).dirty = false ∧ (g.cell n).cache = some v

variable {g g' : Graph} {n m : NodeId} {v : Value}

theorem Has.grows (h : g.Has n v) (hg : g.Grows g') : g'.Has n v := by
  obtain ⟨hclean, hcache⟩ := hg.clean n trivial (lt_size_of_cache h.2) h.1
  exact ⟨hclean, hcache.trans h.2⟩

theorem settleFrom_of_clean {visits : List Visit} {marks : Marks} {left : List NodeId}
    (h : ∀ visit ∈ visits, ∃ m, visit = .enter m ∧ (g.cell m).dirty = false) :
    g.settleFrom visits marks left = left.reverse := by
  fun_induction settleFrom g visits marks left with
  | case1 => rfl
  | case2 marks left m visits ih =>
    obtain ⟨m', hm', -⟩ := h _ List.mem_cons_self
    cases hm'
  | case3 marks left m visits hnew ih =>
    obtain ⟨m', hm', hclean⟩ := h _ List.mem_cons_self
    cases hm'
    have hneeds := hnew.1
    rw [needsWork, hclean] at hneeds
    cases hneeds
  | case4 marks left m visits hold ih => exact ih fun visit hvisit => h visit (List.mem_cons_of_mem _ hvisit)

end Graph

variable {g : Graph} {n : NodeId} {v : Value}

theorem run_readWithin_of_has (h : g.Has n v) (limit : Nat) :
    (readWithin (limit + 1) n).run.run g = (.ok v, g) := by
  rw [readWithin, run_readWith, if_neg (by rw [h.1]; decide), h.2]

theorem run_readNode_of_has (h : g.Has n v) : (readNode n).run.run g = (.ok v, g) := by
  rw [run_readNode]
  exact run_readWithin_of_has h _

theorem run_mapM_of_has {operands : List NodeId} {values : List Value}
    (h : List.Forall₂ g.Has operands values) (limit : Nat) :
    (operands.mapM (readWithin (limit + 1))).run.run g = (.ok values, g) := by
  induction h with
  | nil => rfl
  | cons hfirst hrest ih =>
    rw [List.mapM_cons, run_bind_except, run_readWithin_of_has hfirst]
    dsimp only
    rw [run_bind_except, ih]
    rfl

section

variable {operands : List NodeId} {values : List Value} {g' : Graph}

theorem forall₂_of_mapM {operands : List NodeId} {values : List Value}
    (h : operands.mapM (fun m => (g.cell m).cache) = some values)
    (hclean : ∀ m ∈ operands, (g.cell m).dirty = false) : List.Forall₂ g.Has operands values := by
  induction operands generalizing values with
  | nil =>
    cases h
    exact .nil
  | cons m operands ih =>
    rw [List.mapM_cons] at h
    obtain ⟨v, hv, h⟩ := Option.bind_eq_some_iff.mp h
    obtain ⟨vs, hvs, h⟩ := Option.bind_eq_some_iff.mp h
    cases h
    exact .cons ⟨hclean m List.mem_cons_self, hv⟩ (ih hvs fun k hk => hclean k (List.mem_cons_of_mem _ hk))

theorem dirty_of_forall₂ (h : List.Forall₂ g.Has operands values) :
    ∀ m ∈ operands, (g.cell m).dirty = false := by
  intro m hm
  induction h with
  | nil => cases hm
  | cons hfirst hrest ih =>
    rcases List.mem_cons.mp hm with rfl | hm
    · exact hfirst.1
    · exact ih hm

theorem forall₂_has_of_cell (h : List.Forall₂ g.Has operands values)
    (hcell : ∀ m ∈ operands, g'.cell m = g.cell m) : List.Forall₂ g'.Has operands values := by
  induction h with
  | nil => exact .nil
  | @cons m v operands values hfirst hrest ih =>
    refine .cons ?_ (ih fun k hk => hcell k (List.mem_cons_of_mem _ hk))
    rw [Graph.Has, hcell m List.mem_cons_self]
    exact hfirst

end

/-- Nothing but the node itself changes. -/
structure Graph.Alters (g : Graph) (n : NodeId) (g' : Graph) : Prop where
  records : g'.records = g.records
  size : g'.cells.size = g.cells.size
  cell (m : NodeId) : m ≠ n → g'.cell m = g.cell m

theorem Graph.Alters.modifyCell {g' : Graph} (h : g.Alters n g') (f : Cell → Cell) :
    g.Alters n (g'.modifyCell n f) :=
  ⟨h.records, size_modifyCell.trans h.size, fun m hm => (cell_modifyCell_of_ne hm).trans (h.cell m hm)⟩

theorem Graph.Alters.trans {g' g'' : Graph} (h : g.Alters n g') (h' : g'.Alters n g'') : g.Alters n g'' :=
  ⟨h'.records.trans h.records, h'.size.trans h.size, fun m hm => (h'.cell m hm).trans (h.cell m hm)⟩

theorem Graph.Alters.refl (g : Graph) (n : NodeId) : g.Alters n g := ⟨rfl, rfl, fun _ _ => rfl⟩

section

variable {operation : Operation} {operands : List NodeId} {values : List Value} {offset : Nat}
  {tickets : List Ticket}

theorem settleOrder_of_clean (hnode : g.node n = .calculation operation operands offset tickets)
    (hclean : ∀ m ∈ operands, (g.cell m).dirty = false) : g.settleOrder n = [] := by
  have hinputs : g.inputs n = operands := by
    rw [inputs, hnode]
    exact congrArg Node.dependencies hnode
  rw [settleOrder, hinputs]
  refine settleFrom_of_clean fun visit hvisit => ?_
  obtain ⟨m, hm, rfl⟩ := List.mem_map.mp hvisit
  exact ⟨m, rfl, hclean m (List.mem_reverse.mp hm)⟩

theorem run_evaluateNode_of_clean (hlt : n < g.cells.size) (hidle : (g.cell n).evaluating = false)
    (hnode : g.node n = .calculation operation operands offset tickets) (hne : ∀ m ∈ operands, m ≠ n)
    (hvalues : List.Forall₂ g.Has operands values) (hv : operation.apply values = .ok v) (limit : Nat) :
    ∃ g', (evaluateNode (readWithin (limit + 1)) n).run.run g = (.ok v, g') ∧ g.Alters n g' ∧ g'.Has n v := by
  have hbegun : List.Forall₂ (g.modifyCell n fun c => { c with evaluating := true }).Has operands values :=
    forall₂_has_of_cell hvalues fun m hm => cell_modifyCell_of_ne (hne m hm)
  have hnode' : (g.modifyCell n fun c => { c with evaluating := true }).node n = _ :=
    (cell_modifyCell_congr Cell.node (by exact fun _ => rfl) n).trans hnode
  have happlied : applyAt operation values offset = .ok v := by
    rw [applyAt, hv]
  rw [run_evaluateNode, if_neg (by rw [hidle]; decide), run_compute, hnode']
  dsimp only
  rw [run_mapM_of_has hbegun]
  dsimp only
  rw [happlied, run_keepResult_ok]
  refine ⟨_, rfl, ((Alters.refl g n).modifyCell _).modifyCell _, ?_⟩
  rw [Has, cell_modifyCell_self (by rwa [size_modifyCell])]
  exact ⟨rfl, rfl⟩

/-- A new calculation on clean nodes is worked out at once. -/
theorem run_readNode_of_clean (hlt : n < g.cells.size) (hidle : (g.cell n).evaluating = false)
    (hdirty : (g.cell n).dirty = true) (hnode : g.node n = .calculation operation operands offset tickets)
    (hvalues : List.Forall₂ g.Has operands values) (hv : operation.apply values = .ok v) :
    ∃ g', (readNode n).run.run g = (.ok v, g') ∧ g.Alters n g' ∧ g'.Has n v := by
  have hclean := dirty_of_forall₂ hvalues
  have hne : ∀ m ∈ operands, m ≠ n := by
    rintro m hm rfl
    rw [hclean m hm] at hdirty
    cases hdirty
  have hnodes : ∀ f : Cell → Cell, (∀ c, (f c).node = c.node) →
      (g.modifyCell n f).node n = .calculation operation operands offset tickets :=
    fun f hf => (cell_modifyCell_congr Cell.node hf n).trans hnode
  -- Nothing below it is left to settle.
  have horder : (g.modifyCell n fun c => { c with evaluating := true }).settleOrder n = [] :=
    settleOrder_of_clean (hnodes _ (by exact fun _ => rfl)) fun m hm => by
      rw [cell_modifyCell_of_ne (hne m hm)]
      exact hclean m hm
  have hsettled : ((settle (readWithin (2 * g.cells.size + 1)) n).run g).2 =
      (g.modifyCell n fun c => { c with evaluating := true }).modifyCell n fun c =>
        { c with evaluating := false } := by
    rw [run_settle]
    dsimp only
    rw [horder]
    rfl
  rw [run_readNode]
  show ∃ g', (readWith (readWithin (2 * g.cells.size + 1)) n).run.run g = (.ok v, g') ∧ _
  rw [run_readWith, if_pos hdirty]
  dsimp only
  rw [if_neg (by rw [hidle]; decide), hsettled]
  have halters : g.Alters n ((g.modifyCell n fun c => { c with evaluating := true }).modifyCell n fun c =>
      { c with evaluating := false }) := ((Alters.refl g n).modifyCell _).modifyCell _
  have hself : (((g.modifyCell n fun c => { c with evaluating := true }).modifyCell n fun c =>
      { c with evaluating := false }).cell n).evaluating = false := by
    rw [cell_modifyCell_self (by rwa [size_modifyCell])]
  have hnode' : ((g.modifyCell n fun c => { c with evaluating := true }).modifyCell n fun c =>
      { c with evaluating := false }).node n = .calculation operation operands offset tickets :=
    (cell_modifyCell_congr Cell.node (by exact fun _ => rfl) n).trans (hnodes _ (by exact fun _ => rfl))
  obtain ⟨g', hrun, halters', hhas⟩ := run_evaluateNode_of_clean (by rwa [halters.size]) hself hnode' hne
    (forall₂_has_of_cell hvalues fun m hm => halters.cell m (hne m hm)) hv (2 * g.cells.size)
  exact ⟨g', hrun, halters.trans halters', hhas⟩

end

end FormulaGraph
