import FormulaGraph.Proofs.Installing
import FormulaGraph.Workspace.Perform

/-! Trying one formula out by itself and as the only one of several comes to the same. The one search goes through
the graph as it is, the other takes the new tree for the old one of the expression, and both stop at the expression
before they ask what comes below it. -/

namespace FormulaGraph

open FormulaGraph.Graph

variable {next next' : NodeId → List NodeId} {target : NodeId}

/-- What comes below the target has no part in the search for it. -/
theorem reachesFrom_congr (h : ∀ x, x ≠ target → next x = next' x) (stack : List NodeId) (marks : Marks) :
    reachesFrom next target stack marks = reachesFrom next' target stack marks := by
  fun_induction reachesFrom next target stack marks with
  | case1 => rw [reachesFrom]
  | case2 marks stack => rw [reachesFrom, if_pos rfl]
  | case3 marks n stack hn hnew ih => rw [ih, reachesFrom, if_neg hn, dif_pos hnew, h n hn]
  | case4 marks n stack hn hnew ih => rw [ih, reachesFrom, if_neg hn, dif_neg hnew]

namespace Graph

/-- A tree for the target itself makes no difference, wherever the target stands below other nodes. -/
theorem reaches_replaced (g : Graph) (n tree start : NodeId) :
    g.reaches [(n, tree)] start n = g.dependsOn start n := by
  refine reachesFrom_congr (fun x hx => ?_) _ _
  rw [nextWith, List.lookup_cons, beq_eq_false_iff_ne.mpr hx]
  rfl

/-- Nothing has been built yet that the first tree could take the place of. -/
theorem buildAll_single (g : Graph) (n : NodeId) (text : String) :
    g.buildAll [] [(n, text)] =
      match g.node n with
      | .expression scope _ =>
        if g.scopeIsLive scope then
          match g.parse scope text with
          | (.ok root, g') => (.ok [(n, root)], g')
          | (.error e, g') => (.error (.formula e), g')
        else (.error (.formula (ParseFault.scopeGone.at 0)), g)
      | _ => (.error .notExpression, g) := by
  rw [buildAll]
  cases g.node n with
  | constant | input | calculation => simp only [List.map_nil, release]
  | expression scope source =>
    dsimp only
    cases g.scopeIsLive scope with
    | false => simp only [Bool.false_eq_true, if_false, List.map_nil, release]
    | true =>
      rcases g.parse scope text with ⟨e | root, g'⟩
      · simp only [if_true, List.map_nil, release]
      · simp only [if_true, buildAll, List.lookup_nil, Option.toList_none, List.map_nil, List.filter_nil, release]

theorem cyclicEdit?_single (g : Graph) (n root : NodeId) (text : String) :
    g.cyclicEdit? [(n, root)] [(n, text)] = if g.dependsOn root n then some text else none := by
  rw [cyclicEdit?, List.find?_cons, List.find?_nil]
  simp only [List.lookup_cons_self, reaches_replaced]
  cases g.dependsOn root n <;> rfl

/-- Both give up the tree again, whether it would come to read the expression or not. -/
theorem checkFormulas_single (g : Graph) (n : NodeId) (text : String) :
    g.checkFormulas [(n, text)] = g.checkFormula n text := by
  rw [checkFormulas, buildAll_single, checkFormula]
  cases g.node n with
  | constant | input | calculation => rfl
  | expression scope source =>
    dsimp only
    rw [run_buildTree, ← Graph.parse]
    cases g.scopeIsLive scope with
    | false => rfl
    | true =>
      simp only [if_true]
      rcases g.parse scope text with ⟨e | root, g'⟩
      · rfl
      · dsimp only
        rw [cyclicEdit?_single]
        cases g'.dependsOn root n <;> rfl

end Graph

theorem Workspace.nodesNamed_single (w : Workspace) (id text : String) :
    w.nodesNamed [(id, text)] = (w.nodeNamed id).map fun n => [(n, text)] := by
  simp only [Workspace.nodesNamed, List.mapM_cons, List.mapM_nil]
  cases w.nodeNamed id <;> rfl

/-- The two ways to try one formula out agree on the answer, on the error with its message, place and text, and
on the graph that is left. -/
theorem checks_concur :
    (∀ (g : Graph) (n : NodeId) (text : String), g.checkFormulas [(n, text)] = g.checkFormula n text) ∧
      ∀ (w : Workspace) (id text : String), w.perform (.checkAll [(id, text)]) = w.perform (.check id text) := by
  refine ⟨checkFormulas_single, fun w id text => ?_⟩
  rw [Workspace.perform, Workspace.perform, w.nodesNamed_single]
  cases w.nodeNamed id with
  | error e => rfl
  | ok n => exact congrArg (fun outcome => Except.ok (w.checked outcome)) (checkFormulas_single w.graph n text)

end FormulaGraph
