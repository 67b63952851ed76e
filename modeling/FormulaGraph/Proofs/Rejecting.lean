import FormulaGraph.Proofs.Meaning
import FormulaGraph.Proofs.Running

/-! Edits that are taken back. Whoever reads an expression whose edit is taken back is told why. A reader of
something above it may not be told, as what goes wrong while its nodes are settled is dropped. -/

namespace FormulaGraph

open FormulaGraph.Graph

/-- The edit of `n` is taken back, and that is what comes of reading it. -/
def TakesBack {α : Type} (g : Graph) (n : NodeId) (r : Checked α × Graph) : Prop :=
  ∃ scope text old e, g.node n = .expression scope (.edited text old) ∧
    r.2.node n = .expression scope (.built old) ∧ r.1 = .error e

variable {g : Graph} {ext : List Hold} {told : List NodeId} {n : NodeId} {scope : RecordId}
  {source : Source} {read : Reader}

/-- Building keeps the text, or takes an edit back. -/
theorem currentTree_keeps_or_takesBack (hread : Reads read) (h : g.Working ext told n g)
    (hnode : g.node n = .expression scope source) :
    (((currentTree read n scope source).run.run g).2.node n).formula? = some source.text ∨
      TakesBack g n ((currentTree read n scope source).run.run g) := by
  have hlt := lt_size_of_owners_pos (h.anchored.live h.sound.accounts)
  rw [run_currentTree]
  cases source with
  | built tree =>
    left
    rw [hnode]
    rfl
  | unbuilt text =>
    left
    have hbuild := buildTree_working hread h hnode (by rw [hnode]; rfl) text
    dsimp only
    generalize (buildTree read n scope text).run.run g = built at hbuild ⊢
    rcases built with ⟨e | root, g'⟩
    · rw [hbuild.2, hnode]
      rfl
    · have hinstalled := hbuild.2
      dsimp only at hinstalled ⊢
      rw [Source.tree?] at hinstalled
      rw [hinstalled]
      rfl
  | edited text old =>
    have hbuild := buildTree_working hread h hnode (by rw [hnode]; rfl) text
    dsimp only
    generalize (buildTree read n scope text).run.run g = built at hbuild ⊢
    rcases built with ⟨e | root, g'⟩
    · right
      have hlt' := lt_size_of_owners_pos (hbuild.1.anchored.live hbuild.1.sound.accounts)
      refine ⟨scope, text, old, e, hnode, ?_, rfl⟩
      rw [Graph.node, cell_modifyCell_self hlt']
    · left
      have hinstalled := hbuild.2
      dsimp only at hinstalled ⊢
      rw [Source.tree?] at hinstalled
      rw [hinstalled]
      rfl

/-- What is read through a tree leaves the expression that it is for alone. -/
theorem node_compute (hread : Reads read) (h : g.Working ext told n g)
    (hnode : g.node n = .expression scope source) :
    ((compute read n).run.run g).2.node n = ((currentTree read n scope source).run.run g).2.node n := by
  have hcurrent := currentTree_working hread h hnode
  rw [run_compute, hnode]
  dsimp only
  generalize (currentTree read n scope source).run.run g = r at hcurrent ⊢
  obtain ⟨e | tree, g'⟩ := r
  · rfl
  · obtain ⟨hworking, htree⟩ := hcurrent
    have hn' := htree tree rfl
    have hanchored : g'.Anchored ext tree.root :=
      hworking.anchored.dependency (by rw [hn']; rfl) (by
        rw [dependencies, hn']
        exact List.mem_singleton_self _)
    obtain ⟨-, hgrows, -⟩ := hread hworking.sound hanchored
    exact hgrows.node n trivial
      (lt_size_of_owners_pos (hworking.anchored.live hworking.sound.accounts)) (.inr hworking.evaluating)

theorem node_evaluateNode (hidle : ¬ (g.cell n).evaluating = true) :
    ((evaluateNode read n).run.run g).2.node n =
      ((compute read n).run.run (g.modifyCell n fun c => { c with evaluating := true })).2.node n := by
  rw [run_evaluateNode, if_neg hidle]
  dsimp only
  rcases (compute read n).run.run (g.modifyCell n fun c => { c with evaluating := true }) with ⟨e | v, g'⟩
  · exact cell_modifyCell_congr Cell.node (by exact fun _ => rfl) n
  · exact cell_modifyCell_congr Cell.node (by exact fun _ => rfl) n

theorem compute_keeps_or_takesBack (hread : Reads read) (h : g.Working ext told n g) :
    (((compute read n).run.run g).2.node n).formula? = (g.node n).formula? ∨
      TakesBack g n ((compute read n).run.run g) := by
  by_cases hp : (g.node n).isPending = true
  · cases hn : g.node n with
    | constant | input | calculation =>
      rw [hn] at hp
      cases hp
    | expression scope source =>
      have hsame := node_compute hread h hn
      rcases currentTree_keeps_or_takesBack hread h hn with hkept | ⟨scope', text, old, e, hnode, hback, he⟩
      · exact .inl ((congrArg Node.formula? hsame).trans hkept)
      · refine .inr ⟨scope', text, old, e, hnode, hsame.trans hback, ?_⟩
        rw [run_compute, hn]
        dsimp only
        generalize (currentTree read n scope source).run.run g = r at he ⊢
        obtain ⟨r, g'⟩ := r
        dsimp only at he
        subst he
        rfl
  · left
    rw [(compute_working hread h).1.steady (Bool.eq_false_iff.mpr hp)]

theorem evaluateNode_keeps_or_takesBack (hread : Reads read) (h : g.Sound ext told) (hn : g.Anchored ext n)
    (hdirty : (g.cell n).dirty = true) :
    (((evaluateNode read n).run.run g).2.node n).formula? = (g.node n).formula? ∨
      TakesBack g n ((evaluateNode read n).run.run g) := by
  by_cases he : (g.cell n).evaluating = true
  · rw [run_evaluateNode, if_pos he]
    exact .inl rfl
  · have hstart : (g.modifyCell n fun c => { c with evaluating := true }).node n = g.node n :=
      cell_modifyCell_congr Cell.node (by exact fun _ => rfl) n
    have hkept := compute_keeps_or_takesBack hread (working_setEvaluating h hn hdirty)
    rw [TakesBack, hstart, ← node_evaluateNode he] at hkept
    have hresult : ((evaluateNode read n).run.run g).1 =
        ((compute read n).run.run (g.modifyCell n fun c => { c with evaluating := true })).1 := by
      rw [run_evaluateNode, if_neg he]
    rw [TakesBack, hresult]
    exact hkept

/-- What is settled for a node leaves the node itself alone. -/
theorem node_settle (hread : Reads read) (h : g.Sound ext told) (hn : g.Anchored ext n)
    (hdirty : (g.cell n).dirty = true) : ((settle read n).run g).2.node n = g.node n := by
  have hstart := working_setEvaluating h hn hdirty
  obtain ⟨-, hgrows⟩ :=
    settleAll_sound hread hstart.sound (settleOrder_anchored hstart.sound.accounts hstart.anchored)
  have hlt := lt_size_of_owners_pos (hstart.anchored.live hstart.sound.accounts)
  have hsame := hgrows.node n trivial hlt (.inr hstart.evaluating)
  rw [run_settle]
  dsimp only
  rw [show ∀ g' : Graph, (g'.modifyCell n fun c => { c with evaluating := false }).node n = g'.node n from
    fun g' => cell_modifyCell_congr Cell.node (by exact fun _ => rfl) n, hsame]
  exact cell_modifyCell_congr Cell.node (by exact fun _ => rfl) n

/-- A read keeps the formula of what it reads, or takes its edit back and fails. -/
theorem readWith_keeps_or_takesBack (hread : Reads read) (h : g.Sound ext told) (hn : g.Anchored ext n) :
    (((readWith read n).run.run g).2.node n).formula? = (g.node n).formula? ∨
      TakesBack g n ((readWith read n).run.run g) := by
  rw [run_readWith]
  by_cases hdirty : (g.cell n).dirty = true
  · rw [if_pos hdirty]
    dsimp only
    by_cases he : (g.cell n).evaluating = true
    · rw [if_pos he]
      exact .inl rfl
    · rw [if_neg he]
      obtain ⟨hsound, hgrows, hdirty'⟩ := settle_sound hread h hn hdirty (Bool.eq_false_iff.mpr he)
      have hevaluated :=
        evaluateNode_keeps_or_takesBack hread hsound (hn.grows h.accounts hgrows) hdirty'
      rw [TakesBack, node_settle hread h hn hdirty] at hevaluated
      exact hevaluated
  · obtain ⟨v, hv⟩ := h.coherent.cached n (hn.live h.accounts) (Bool.eq_false_iff.mpr hdirty)
    rw [if_neg hdirty, hv]
    exact .inl rfl

namespace Workspace

variable {w : Workspace}

/-- In every state that is reached, whoever reads an expression and thereby takes its edit back is given an
error. -/
theorem error_of_rejected {limit : Nat} {steps : List Step}
    (h : Workspace.run limit {} (steps.map .perform) = some w) (hn : w.graph.Anchored w.holds n)
    (hback : ((w.graph.read n).2.node n).formula? ≠ (w.graph.node n).formula?) :
    ∃ scope text old e, w.graph.node n = .expression scope (.edited text old) ∧
      (w.graph.read n).2.node n = .expression scope (.built old) ∧ (w.graph.read n).1 = .error e := by
  have hkept := readWith_keeps_or_takesBack (readWithin_reads (2 * w.graph.cells.size + 1)) (sound_of_run h) hn
  rw [Graph.read, run_readNode] at hback ⊢
  exact hkept.resolve_left hback

/-- The formula of "b" names nothing now, and "a" is above it. -/
def unnamedSteps : List Step :=
  [.record "r" none, .expression "r" "b" "b" "1", .expression "r" "a" "a" "b + 1", .read "a",
    .setFormula "b" "Nope"]

theorem error_of_unnamed :
    ∃ w n e, Workspace.run 100 {} (unnamedSteps.map .perform) = some w ∧ w.handles["b"]? = some n ∧
      ((w.graph.read n).2.node n).formula? ≠ (w.graph.node n).formula? ∧ (w.graph.read n).1 = .error e := by
  have hread : ((Workspace.run 100 {} (unnamedSteps.map .perform)).bind fun w =>
      w.handles["b"]?.map fun n =>
        ((w.graph.node n).formula?, ((w.graph.read n).2.node n).formula?)) = some (some "Nope", some "1") := by
    decide +kernel
  obtain ⟨w, hw, hread⟩ := Option.bind_eq_some_iff.mp hread
  obtain ⟨n, hn, hread⟩ := Option.map_eq_some_iff.mp hread
  obtain ⟨hbefore, hafter⟩ := Prod.mk.inj hread
  have hback : ((w.graph.read n).2.node n).formula? ≠ (w.graph.node n).formula? := by
    rw [hbefore, hafter]
    decide
  obtain ⟨-, -, -, e, -, -, he⟩ := error_of_rejected hw (.outside (mem_holds_of_handle hn)) hback
  exact ⟨w, n, e, hw, hn, hback, he⟩

/-- The edit of "b" is taken back while "a" is read, and the read of "a" gives a value all the same. -/
theorem value_of_rejected :
    ∃ w n m v, Workspace.run 100 {} (unnamedSteps.map .perform) = some w ∧ w.handles["a"]? = some n ∧
      w.handles["b"]? = some m ∧ (w.graph.node m).formula? = some "Nope" ∧
        ((w.graph.read n).2.node m).formula? = some "1" ∧ (w.graph.read n).1 = .ok v := by
  have hread : ((Workspace.run 100 {} (unnamedSteps.map .perform)).bind fun w =>
      w.handles["a"]?.bind fun n => w.handles["b"]?.bind fun m =>
        (w.graph.read n).1.toOption.map fun _ =>
          ((w.graph.node m).formula?, ((w.graph.read n).2.node m).formula?)) =
        some (some "Nope", some "1") := by
    decide +kernel
  obtain ⟨w, hw, hread⟩ := Option.bind_eq_some_iff.mp hread
  obtain ⟨n, hn, hread⟩ := Option.bind_eq_some_iff.mp hread
  obtain ⟨m, hm, hread⟩ := Option.bind_eq_some_iff.mp hread
  obtain ⟨v, hv, hread⟩ := Option.map_eq_some_iff.mp hread
  obtain ⟨hbefore, hafter⟩ := Prod.mk.inj hread
  exact ⟨w, n, m, v, hw, hn, hm, hbefore, hafter, toOption_eq_some.mp hv⟩

end Workspace

end FormulaGraph
