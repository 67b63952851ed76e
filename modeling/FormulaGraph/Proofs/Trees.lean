import FormulaGraph.Proofs.Lasting
import FormulaGraph.Proofs.Editing

/-! Every tree has been built from its formula. Reading puts no tree in place before it is built, and edits
leave the trees alone. -/

namespace FormulaGraph

open FormulaGraph.Graph

def Node.tree? : Node → Option (RecordId × Tree)
  | .expression scope source => source.tree?.map (scope, ·)
  | _ => none

namespace Graph

def Faithful (g : Graph) : Prop :=
  ∀ n scope tree, (g.node n).tree? = some (scope, tree) → g.BuiltFrom scope tree.text tree.root

/-- Later on, without a new tree. -/
structure TreesFrom (g g' : Graph) : Prop where
  extension : g.Extends g'
  trees (n : NodeId) (x : RecordId × Tree) : (g'.node n).tree? = some x → (g.node n).tree? = some x

variable {g g' g'' : Graph} {ext holds : List Hold} {told : List NodeId} {n m : NodeId} {scope : RecordId}
  {source : Source}

theorem TreesFrom.trans (h : g.TreesFrom g') (h' : g'.TreesFrom g'') : g.TreesFrom g'' :=
  ⟨h.extension.trans h'.extension, fun n x hx => h.trees n x (h'.trees n x hx)⟩

theorem TreesFrom.of_node (hrecords : g'.records = g.records) (hsize : g.cells.size ≤ g'.cells.size)
    (hnode : ∀ m, g'.node m = g.node m) : g.TreesFrom g' :=
  ⟨⟨hrecords, hsize, fun m _ _ => hnode m⟩, fun m _ hx => hnode m ▸ hx⟩

theorem TreesFrom.refl (g : Graph) : g.TreesFrom g :=
  .of_node rfl (Nat.le_refl _) fun _ => rfl

theorem Faithful.treesFrom (h : g.Faithful) (ht : g.TreesFrom g') : g'.Faithful :=
  fun n scope tree hx => (h n scope tree (ht.trees n _ hx)).extends ht.extension

theorem treesFrom_modifyCell {f : Cell → Cell} (h : ∀ c, (f c).node = c.node) :
    g.TreesFrom (g.modifyCell n f) :=
  .of_node rfl (Nat.le_of_eq size_modifyCell.symm) (cell_modifyCell_congr Cell.node h)

theorem treesFrom_release (h : ∀ x ∈ holds, x.isRecord = false) : g.TreesFrom (g.release holds) :=
  .of_node (records_release h) (Nat.le_of_eq size_release.symm) fun m => congrArg (·.1) (core_release m)

theorem treesFrom_retain_node : g.TreesFrom (g.retain (.node n)) :=
  treesFrom_modifyCell (by exact fun _ => rfl)

theorem treesFrom_addCell {node : Node} (hnode : node.tree? = none) (cache : Option Value) :
    g.TreesFrom (g.addCell node cache).2 := by
  have hcell := cell_addCell (g := g) node cache
  refine ⟨(grows_addCell node cache).extends, fun m x hx => ?_⟩
  rw [Graph.node, hcell] at hx
  by_cases hm : m = g.cells.size
  · rw [if_pos hm, hnode] at hx
    cases hx
  · rwa [if_neg hm] at hx

theorem extends_setNode (hnode : (g.node n).isMade = false) (node : Node) :
    g.Extends (g.modifyCell n fun c => { c with node }) := by
  refine ⟨rfl, Nat.le_of_eq size_modifyCell.symm, fun m _ hmade => ?_⟩
  have hne : m ≠ n := by
    rintro rfl
    rw [hnode] at hmade
    cases hmade
  rw [Graph.node, cell_modifyCell_of_ne hne, Graph.node]

theorem node_setNode (g : Graph) (n : NodeId) (node : Node) (m : NodeId) :
    (g.modifyCell n fun c => { c with node }).node m = g.node m ∨
      m = n ∧ (g.modifyCell n fun c => { c with node }).node m = node := by
  by_cases hlt : n < g.cells.size
  · by_cases hm : m = n
    · refine .inr ⟨hm, ?_⟩
      rw [hm, Graph.node, cell_modifyCell_self hlt]
    · rw [Graph.node, cell_modifyCell_of_ne hm]
      exact .inl rfl
  · rw [modifyCell_of_size_le (Nat.le_of_not_lt hlt)]
    exact .inl rfl

/-- An expression may come to have a tree that was built for it. -/
theorem Faithful.setNode (h : g.Faithful) (hnode : (g.node n).isMade = false)
    (htree : ∀ tree, source.tree? = some tree → g.BuiltFrom scope tree.text tree.root) :
    (g.modifyCell n fun c => { c with node := .expression scope source }).Faithful := by
  intro m scope' tree hx
  refine BuiltFrom.extends ?_ (extends_setNode hnode _)
  rcases node_setNode g n (.expression scope source) m with hsame | ⟨-, hnew⟩
  · exact h m scope' tree (hsame ▸ hx)
  · rw [hnew] at hx
    obtain ⟨tree', htree', he⟩ := Option.map_eq_some_iff.mp hx
    cases he
    exact htree tree htree'

theorem treesFrom_setNode {node : Node} (hnode : (g.node n).isMade = false)
    (htree : node.tree? = (g.node n).tree?) : g.TreesFrom (g.modifyCell n fun c => { c with node }) := by
  refine ⟨extends_setNode hnode node, fun m x hx => ?_⟩
  rcases node_setNode g n node m with hsame | ⟨rfl, hnew⟩
  · exact hsame ▸ hx
  · rwa [hnew, htree] at hx

end Graph

theorem Node.tree?_of_isMade {node : Node} (h : node.isMade = true) : node.tree? = none := by
  cases node with
  | constant | calculation => rfl
  | input | expression => cases h

/-- What is read puts in place only trees that have been built. -/
theorem lasts_faithful : Lasts fun _ g => g.Faithful where
  alike h halike := h.treesFrom (.of_node halike.records (Nat.le_of_eq halike.size.symm) halike.node)
  add cache h hmade _ := h.treesFrom (treesFrom_addCell (Node.tree?_of_isMade hmade) cache)
  start _ h := h.treesFrom (treesFrom_modifyCell (by exact fun _ => rfl))
  finish h := h.treesFrom (treesFrom_modifyCell (by exact fun _ => rfl))
  takeBack {_ g n scope text old} h hnode := by
    refine h.setNode (by rw [hnode]; rfl) fun tree htree => ?_
    refine h n scope tree ?_
    rw [hnode]
    exact congrArg (Option.map (scope, ·)) htree
  install {_ g n scope source tree} h hnode _ hbuilt _ _ := by
    refine h.setNode (by rw [hnode]; rfl) fun tree' htree => ?_
    obtain rfl := Option.some.inj htree
    exact hbuilt

theorem readNode_faithful {g : Graph} {ext : List Hold} {told : List NodeId} {n : NodeId}
    (h : g.Sound ext told) (hn : g.Anchored ext n) (hf : g.Faithful) :
    ((readNode n).run.run g).2.Faithful :=
  @readNode_keeps _ lasts_faithful.abides [] g ext told n h hn hf

namespace Graph

variable {g : Graph} {n : NodeId}

theorem treesFrom_dirtied : g.TreesFrom (g.dirtied n).2 :=
  treesFrom_modifyCell (by exact fun _ => rfl)

theorem treesFrom_tell : g.TreesFrom (g.tell n).2 := by
  rw [tell]
  split
  · exact treesFrom_dirtied
  · exact .refl g

theorem setInput_treesFrom {value : Value} {listeners : List Listener} {g' : Graph}
    (h : g.setInput n value = .ok (listeners, g')) : g.TreesFrom g' := by
  rw [setInput] at h
  cases hnode : g.node n with
  | input old =>
    rw [hnode] at h
    dsimp only at h
    split at h
    · cases h
      exact .refl g
    · cases h
      exact (treesFrom_setNode (by rw [hnode]; rfl) (by rw [hnode]; rfl)).trans treesFrom_dirtied
  | constant | calculation | expression =>
    rw [hnode] at h
    cases h

theorem setFormula_treesFrom {text : String} {listeners : List Listener} {g' : Graph}
    (h : g.setFormula n text = .ok (listeners, g')) : g.TreesFrom g' := by
  rw [setFormula] at h
  cases hnode : g.node n with
  | expression scope source =>
    rw [hnode] at h
    dsimp only at h
    split at h
    · cases h
      exact .refl g
    · cases h
      refine (treesFrom_setNode (by rw [hnode]; rfl) ?_).trans treesFrom_dirtied
      rw [hnode, Node.tree?, tree?_edit, Node.tree?]
  | constant | input | calculation =>
    rw [hnode] at h
    cases h

end Graph

end FormulaGraph
