import FormulaGraph.Proofs.Lasting

/-! A read takes no node away. This holds of every graph, sound or not, since nodes are only ever added. -/

namespace FormulaGraph

open FormulaGraph.Graph

variable {g : Graph} {read : Reader}

theorem size_addCalculation (operation : Operation) (operands : List NodeId) (offset : Nat) :
    (g.addCalculation operation operands offset).2.cells.size = g.cells.size + 1 := by
  rw [addCalculation]
  exact (size_addCell _ none).trans (congrArg (· + 1) (alike_subscribeAll operands _).size)

/-- After every read there are as many nodes as before, or more. -/
def Expands (read : Reader) : Prop := ∀ (g : Graph) (n : NodeId), g.cells.size ≤ ((read n).run.run g).2.cells.size

theorem calculate_expands (hread : Expands read) (operation : Operation) (operands : List NodeId) (offset : Nat)
    (g : Graph) :
    g.cells.size ≤ (((graphBuilder read).calculate operation operands offset).run g).2.cells.size := by
  have hadded : g.cells.size ≤ (g.addCalculation operation operands offset).2.cells.size := by
    rw [size_addCalculation]
    exact Nat.le_succ _
  have hmade := hread (g.addCalculation operation operands offset).2 (g.addCalculation operation operands offset).1
  rw [run_calculate]
  generalize (read (g.addCalculation operation operands offset).1).run.run
    (g.addCalculation operation operands offset).2 = r at hmade ⊢
  obtain ⟨e | v, g'⟩ := r
  · dsimp only
    rw [size_release]
    exact Nat.le_trans hadded hmade
  · exact Nat.le_trans hadded hmade

theorem graphBuilder_expands (hread : Expands read) (k : Nat) :
    (graphBuilder read).Keeps (fun _ g => k ≤ g.cells.size) fun _ => True where
  recount _ h := h
  literal v h := Nat.le_trans h (grows_addCell _ (some v)).size
  calculate {arguments _ s} operation offset h := by
    have hmade := calculate_expands hread operation arguments offset s
    generalize ((graphBuilder read).calculate operation arguments offset).run s = r at hmade
    obtain ⟨e | a, s'⟩ := r <;> exact Nat.le_trans h hmade
  kind _ h := Nat.le_trans h (hread _ _)
  resolve {r _ s} name _ h := by
    refine ⟨?_, fun _ _ => trivial⟩
    rw [run_resolve]
    rcases s.resolve? r name with _ | ⟨n | r' | items⟩
    · exact h
    · exact Nat.le_trans h (Nat.le_of_eq size_modifyCell.symm)
    · exact h
    · exact h
  discard h := Nat.le_trans h (Nat.le_of_eq size_release.symm)

theorem buildTree_expands (hread : Expands read) (n : NodeId) (scope : RecordId) (text : String) (g : Graph) :
    g.cells.size ≤ ((buildTree read n scope text).run.run g).2.cells.size := by
  have hparse := @Builder.Keeps.parse _ _ _ [] g _ scope _ _ (graphBuilder_expands hread g.cells.size) trivial text
    (Nat.le_refl _)
  rw [run_buildTree]
  split
  next =>
    generalize ((graphBuilder read).parse scope text).run g = parsed at hparse ⊢
    obtain ⟨e | root, g'⟩ := parsed
    · exact hparse
    · dsimp only
      split
      · rw [size_release]
        exact hparse
      · exact hparse
  next => exact Nat.le_refl _

theorem currentTree_expands (hread : Expands read) (n : NodeId) (scope : RecordId) (source : Source) (g : Graph) :
    g.cells.size ≤ ((currentTree read n scope source).run.run g).2.cells.size := by
  rw [run_currentTree]
  cases source with
  | built tree => exact Nat.le_refl _
  | unbuilt text =>
    have hbuild := buildTree_expands hread n scope text g
    dsimp only
    generalize (buildTree read n scope text).run.run g = built at hbuild ⊢
    obtain ⟨e | root, g'⟩ := built
    · exact hbuild
    · exact Nat.le_trans hbuild (Nat.le_of_eq (size_installTree ..).symm)
  | edited text old =>
    have hbuild := buildTree_expands hread n scope text g
    dsimp only
    generalize (buildTree read n scope text).run.run g = built at hbuild ⊢
    obtain ⟨e | root, g'⟩ := built
    · exact Nat.le_trans hbuild (Nat.le_of_eq size_modifyCell.symm)
    · exact Nat.le_trans hbuild (Nat.le_of_eq (size_installTree ..).symm)

theorem mapM_expands (hread : Expands read) (nodes : List NodeId) (g : Graph) :
    g.cells.size ≤ ((nodes.mapM read).run.run g).2.cells.size := by
  induction nodes generalizing g with
  | nil => exact Nat.le_refl _
  | cons m nodes ih =>
    have hfirst := hread g m
    rw [List.mapM_cons, run_bind_except]
    generalize (read m).run.run g = first at hfirst ⊢
    obtain ⟨e | v, g₁⟩ := first
    · exact hfirst
    · have hrest := ih g₁
      dsimp only
      rw [run_bind_except]
      generalize (nodes.mapM read).run.run g₁ = rest at hrest ⊢
      obtain ⟨e | values, g₂⟩ := rest <;> exact Nat.le_trans hfirst hrest

theorem compute_expands (hread : Expands read) (n : NodeId) (g : Graph) :
    g.cells.size ≤ ((compute read n).run.run g).2.cells.size := by
  rw [run_compute]
  cases g.node n with
  | constant value | input value => exact Nat.le_refl _
  | calculation operation operands offset tickets =>
    have hmapM := mapM_expands hread operands g
    dsimp only
    generalize (operands.mapM read).run.run g = r at hmapM ⊢
    obtain ⟨e | values, g'⟩ := r <;> exact hmapM
  | expression scope source =>
    have hcurrent := currentTree_expands hread n scope source g
    dsimp only
    generalize (currentTree read n scope source).run.run g = r at hcurrent ⊢
    obtain ⟨e | tree, g'⟩ := r
    · exact hcurrent
    · exact Nat.le_trans hcurrent (hread g' tree.root)

theorem evaluateNode_expands (hread : Expands read) (n : NodeId) (g : Graph) :
    g.cells.size ≤ ((evaluateNode read n).run.run g).2.cells.size := by
  have hcompute := compute_expands hread n (g.modifyCell n fun c => { c with evaluating := true })
  rw [size_modifyCell] at hcompute
  rw [run_evaluateNode]
  split
  · exact Nat.le_refl _
  · exact Nat.le_trans hcompute (Nat.le_of_eq size_modifyCell.symm)

theorem settleAll_expands (hread : Expands read) (nodes : List NodeId) (g : Graph) :
    g.cells.size ≤ ((settleAll read nodes).run g).2.cells.size := by
  induction nodes generalizing g with
  | nil => exact Nat.le_refl _
  | cons n nodes ih =>
    have hfirst := evaluateNode_expands hread n g
    rw [run_settleAll_cons]
    split
    · generalize (evaluateNode read n).run.run g = r at hfirst ⊢
      obtain ⟨e | v, g'⟩ := r
      · exact hfirst
      · exact Nat.le_trans hfirst (ih g')
    · exact ih g

theorem readWith_expands (hread : Expands read) : Expands (readWith read) := by
  intro g n
  rw [run_readWith]
  split
  · exact Nat.le_refl _
  · split
    · exact Nat.le_refl _
    · have hsettled : g.cells.size ≤ ((settle read n).run g).2.cells.size := by
        rw [run_settle]
        dsimp only
        rw [size_modifyCell]
        refine Nat.le_trans (Nat.le_of_eq size_modifyCell.symm) (settleAll_expands hread _ _)
      exact Nat.le_trans hsettled (evaluateNode_expands hread n _)

/-- By induction on how deep the read may go. -/
theorem readWithin_expands (limit : Nat) : Expands (readWithin limit) := by
  induction limit with
  | zero => exact fun _ _ => Nat.le_refl _
  | succ limit ih => exact readWith_expands ih

end FormulaGraph
