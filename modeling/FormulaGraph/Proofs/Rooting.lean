import FormulaGraph.Proofs.Stages
import FormulaGraph.Proofs.Trees

/-! What trees are trees of. A formula is built with its names as they are at the time, and they may stand for
something else later, while the tree stays. So every tree in place is that of its text with the names as they were
at some moment. -/

namespace FormulaGraph

open FormulaGraph.Graph

namespace Graph

/-- With the names as they were at some moment. -/
def BuiltUnder (Past : Array Record → Prop) (g : Graph) (scope : RecordId) (text : String) (root : NodeId) : Prop :=
  ∃ records, Past records ∧ ({ g with records } : Graph).BuiltFrom scope text root

def Rooted (Past : Array Record → Prop) (g : Graph) : Prop :=
  ∀ n scope tree, (g.node n).tree? = some (scope, tree) → g.BuiltUnder Past scope tree.text tree.root

variable {Past : Array Record → Prop} {g g' : Graph} {n : NodeId} {scope : RecordId} {tree : Tree} {text : String}
  {root : NodeId}

theorem BuiltUnder.later (h : g.BuiltUnder Past scope text root) (hsize : g.cells.size ≤ g'.cells.size)
    (hmade : ∀ m < g.cells.size, (g.node m).isMade = true → g'.node m = g.node m) :
    g'.BuiltUnder Past scope text root := by
  obtain ⟨records, hpast, hbuilt⟩ := h
  exact ⟨records, hpast, hbuilt.extends ⟨rfl, hsize, hmade⟩⟩

theorem Rooted.step (h : g.Rooted Past) (hsize : g.cells.size ≤ g'.cells.size)
    (hmade : ∀ m < g.cells.size, (g.node m).isMade = true → g'.node m = g.node m)
    (htrees : ∀ m scope tree, (g'.node m).tree? = some (scope, tree) →
      (g.node m).tree? = some (scope, tree) ∨ g.BuiltUnder Past scope tree.text tree.root) : g'.Rooted Past :=
  fun m scope tree htree => by
    rcases htrees m scope tree htree with hold | hnew
    · exact (h m scope tree hold).later hsize hmade
    · exact hnew.later hsize hmade

theorem Rooted.treesFrom (h : g.Rooted Past) (ht : g.TreesFrom g') : g'.Rooted Past :=
  h.step ht.extension.size ht.extension.made fun m _ _ htree => .inl (ht.trees m _ htree)

theorem Rooted.install (h : g.Rooted Past) (hnode : (g.node n).isMade = false)
    (hbuilt : g.BuiltUnder Past scope tree.text tree.root) :
    (g.modifyCell n fun c => { c with node := .expression scope (.built tree) }).Rooted Past := by
  have hextends := extends_setNode hnode (.expression scope (.built tree))
  refine h.step hextends.size hextends.made fun m scope' tree' htree => ?_
  rcases node_setNode g n (.expression scope (.built tree)) m with hsame | ⟨-, hnew⟩
  · exact .inl (hsame ▸ htree)
  · rw [hnew] at htree
    cases htree
    exact .inr hbuilt

end Graph

theorem Node.tree?_gist (node : Node) : node.gist.tree? = node.tree? := by
  cases node with
  | expression scope source => rw [gist, tree?, tree?, source.tree?_gist]
  | constant | input | calculation => rfl

theorem Node.tree?_of_dependencies {node : Node} (h : node.dependencies = []) : node.tree? = none := by
  cases node with
  | expression scope source =>
    cases source with
    | unbuilt text => rfl
    | built | edited => cases h
  | constant | input | calculation => rfl

variable {Past : Array Record → Prop}

/-- A read leaves the names alone. -/
theorem lasts_rooted : Lasts fun _ g => Past g.records ∧ g.Rooted Past where
  alike h ha := by
    rw [ha.records]
    exact ⟨h.1, h.2.treesFrom (.of_node ha.records (Nat.le_of_eq ha.size.symm) ha.node)⟩
  add cache h hmade _ := ⟨h.1, h.2.treesFrom (treesFrom_addCell (Node.tree?_of_isMade hmade) cache)⟩
  start _ h := ⟨h.1, h.2.treesFrom (treesFrom_modifyCell (by exact fun _ => rfl))⟩
  finish h := ⟨h.1, h.2.treesFrom (treesFrom_modifyCell (by exact fun _ => rfl))⟩
  takeBack h hnode := ⟨h.1, h.2.treesFrom (treesFrom_setNode (by rw [hnode]; rfl) (by rw [hnode]; rfl))⟩
  install {_ g _ _ _ _} h hnode _ hbuilt _ _ := ⟨h.1, h.2.install (by rw [hnode]; rfl) ⟨g.records, h.1, hbuilt⟩⟩

/-- Whatever is done, as long as formulas are built with names of that kind. -/
theorem outlives_rooted : Outlives (fun g => Past g.records) fun _ _ g => g.Rooted Past where
  grows hpast _ hg := hg.records ▸ hpast
  wanes {_ _ g g'} h hw _ := by
    refine h.step (Nat.le_of_eq hw.size.symm) (fun m _ => hw.made m) fun m scope tree htree => .inl ?_
    rw [← Node.tree?_gist, hw.gist, Node.tree?_gist] at htree
    exact htree
  leaf cache h hdependencies _ _ := h.treesFrom (treesFrom_addCell (Node.tree?_of_dependencies hdependencies) cache)
  watch {k _ g} n h := by
    have ha : g.Alike (g.subscribe n (.callback k)).2 := alike_subscribe _
    exact h.treesFrom (.of_node ha.records (Nat.le_of_eq ha.size.symm) ha.node)
  read {_ busy g ext told n} hpast h hsound hn :=
    (@readNode_keeps _ lasts_rooted.abides busy g ext told n hsound hn ⟨hpast, h⟩).2
  parse {_ busy g ext told r} text hpast h hsound hr :=
    (@parse_lasts _ busy g ext told r readNode lasts_rooted.abides readNode_reads
      (@readNode_keeps _ lasts_rooted.abides) hsound hr ⟨hpast, h⟩ text).2

namespace Workspace

/-- What the records have been at some moment up to then. -/
def Formerly (k : Nat) (steps : List Step) (records : Array Record) : Prop :=
  ∃ j ≤ k, (after j (steps.map .perform) {}).2.graph.records = records

/-- However far it has come, every tree has been built from its text. -/
theorem rooted_after (k : Nat) (steps : List Step) :
    (after k (steps.map .perform) {}).2.graph.Rooted (Formerly k steps) := by
  refine outlives_after outlives_rooted (fun n scope tree htree => ?_) k steps fun j hj => ⟨j, hj, rfl⟩
  cases htree

end Workspace

end FormulaGraph
