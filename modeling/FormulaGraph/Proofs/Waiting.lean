import FormulaGraph.Proofs.Proceeding
import FormulaGraph.Proofs.Stages

/-! A formula that waits to be built makes its node dirty, also while others are still to be told of the edit. -/

namespace FormulaGraph

open FormulaGraph.Graph

section

variable {g g' : Graph}

theorem readNode_proceeds : Proceeding readNode := by
  intro g ext told n h hn
  rw [run_readNode]
  exact readWithin_proceeds _ h hn

theorem Graph.Awaits.steady {m : NodeId} (h : g.Awaits) (hclean : (g.cell m).dirty = false) :
    (g.node m).isPending = false :=
  Bool.eq_false_iff.mpr fun hp => by
    rw [h m hp] at hclean
    cases hclean

/-- What is still pending has been left alone, or has not been worked out in the end. -/
theorem Graph.ProceedsOn.awaits (h : g.Proceeds g') (hg : g.Awaits) : g'.Awaits := by
  intro m hp
  have hbefore := h.pending m hp
  have hdirty := hg m hbefore
  have hcell := h.cell m trivial (lt_size_of_dirty hdirty)
  by_cases hsame : (g'.cell m).evaluations = (g.cell m).evaluations
  · rw [(hcell.idle hsame).1, hdirty]
  · refine Bool.eq_true_of_not_eq_false fun hclean => ?_
    rw [show (g'.node m).isPending = false from hcell.steady hsame hclean] at hp
    cases hp

theorem outlives_awaits : Outlives (fun _ => True) fun _ _ g => g.Awaits where
  grows _ _ _ := trivial
  wanes h _ hawaits := hawaits h
  leaf {_ _ g node} cache h _ _ hcache := by
    have hcell := cell_addCell (g := g) node cache
    intro m hp
    rw [Graph.node, hcell] at hp
    rw [hcell]
    split at hp
    next hm =>
      rw [if_pos hm, hcache hp]
      rfl
    next hm =>
      rw [if_neg hm]
      exact h m hp
  watch n h := h.of_eq (alike_subscribe _).node fun m hd => (congrArg (·.2.2.1) (core_subscribe _ m)).trans hd
  read _ hg h hn := (readNode_proceeds h hn).awaits hg
  parse text _ hg h hr := (parse_proceeds readNode_reads readNode_proceeds h hr text).awaits hg

end

/-- Whatever is asked for, and however far it has come. -/
theorem Workspace.awaits_after (k : Nat) (steps : List Step) : (after k (steps.map .perform) {}).2.graph.Awaits := by
  refine outlives_after outlives_awaits (fun m hp => ?_) k steps fun _ _ => trivial
  cases hp

end FormulaGraph
