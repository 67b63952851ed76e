import FormulaGraph.Proofs.Acyclic

/-! What holds at every moment, not only when all that was asked for is done. A script sees the states in
between, while others are still to be told. -/

namespace FormulaGraph

open Relation

namespace Workspace

/-- What is left, and the workspace, once so many tasks have been worked off. -/
def after : Nat → List Task → Workspace → Next
  | 0, tasks, w => (tasks, w)
  | _ + 1, [], w => ([], w)
  | k + 1, task :: tasks, w => after k ((w.advance task).1 ++ tasks) (w.advance task).2

variable {w w' : Workspace}

/-- A run is what is there when nothing is left. -/
theorem run_eq_some_iff {limit : Nat} {tasks : List Task} :
    w.run limit tasks = some w' ↔ after limit tasks w = ([], w') := by
  induction limit generalizing w tasks with
  | zero => cases tasks <;> simp [run, after]
  | succ limit ih =>
    cases tasks with
    | nil => simp [run, after]
    | cons task tasks =>
      rw [run, after]
      exact ih

theorem after_induction {P : List Task → Workspace → Prop}
    (hstep : ∀ task tasks w, P (task :: tasks) w → P ((w.advance task).1 ++ tasks) (w.advance task).2)
    (k : Nat) {tasks : List Task} (h : P tasks w) : P (after k tasks w).1 (after k tasks w).2 := by
  induction k generalizing w tasks with
  | zero => exact h
  | succ k ih =>
    cases tasks with
    | nil => exact h
    | cons task tasks => exact ih (hstep task tasks w h)

/-- With the next task worked off, the workspace is sound with what is left. -/
theorem advance_sound_cons {task : Task} {tasks : List Task}
    (h : w.Sound ((task :: tasks).flatMap Task.holds) ((task :: tasks).flatMap Task.told)) :
    (w.advance task).2.Sound (((w.advance task).1 ++ tasks).flatMap Task.holds)
      (((w.advance task).1 ++ tasks).flatMap Task.told) := by
  rw [List.flatMap_append, List.flatMap_append]
  exact advance_sound task h

/-- What each task keeps of a sound workspace holds whenever a script could look. -/
theorem sound_after {P : Workspace → Prop} (hstep : ∀ (rest : List Hold) (told : List NodeId) (task : Task)
    (w : Workspace), w.Sound (task.holds ++ rest) (task.told ++ told) → P w → P (w.advance task).2) (hempty : P {})
    (k : Nat) (steps : List Step) :
    (after k (steps.map .perform) {}).2.Sound ((after k (steps.map .perform) {}).1.flatMap Task.holds)
      ((after k (steps.map .perform) {}).1.flatMap Task.told) ∧ P (after k (steps.map .perform) {}).2 := by
  refine after_induction (P := fun tasks w =>
    w.Sound (tasks.flatMap Task.holds) (tasks.flatMap Task.told) ∧ P w)
    (fun task tasks w hw => ⟨advance_sound_cons hw.1, hstep _ _ task w hw.1 hw.2⟩) k ⟨sound_start steps, hempty⟩

/-- What outlives everything that is done while `A` holds of the graph. -/
theorem outlives_after_of_sound {A : Graph → Prop} {Q : Nat → List NodeId → Graph → Prop} (hQ : Outlives A Q)
    {k : Nat} {tasks : List Task} (h : w.Sound (tasks.flatMap Task.holds) (tasks.flatMap Task.told))
    (hg : w.Upholds Q) (hA : ∀ j ≤ k, A (after j tasks w).2.graph) : (after k tasks w).2.Upholds Q := by
  induction k generalizing tasks w with
  | zero => exact hg
  | succ k ih =>
    cases tasks with
    | nil => exact hg
    | cons task tasks =>
      exact ih (advance_sound_cons h) (advance_outlives hQ task (hA 0 (Nat.zero_le _)) h hg)
        fun j hj => hA (j + 1) (Nat.succ_le_succ hj)

theorem outlives_after {A : Graph → Prop} {Q : Nat → List NodeId → Graph → Prop} (hQ : Outlives A Q)
    (hempty : Upholds Q {}) (k : Nat) (steps : List Step) (hA : ∀ j ≤ k, A (after j (steps.map .perform) {}).2.graph) :
    (after k (steps.map .perform) {}).2.Upholds Q :=
  outlives_after_of_sound hQ (sound_start steps) hempty hA

/-- What holds of the empty graph and endures holds whenever a script could look. -/
theorem endures_after {P : List NodeId → Graph → Prop} (hP : Endures P) (hempty : P [] {}) (k : Nat)
    (steps : List Step) : P [] (after k (steps.map .perform) {}).2.graph :=
  (sound_after (P := fun w => P [] w.graph) (fun _ _ task _ hw hg => advance_endures hP task hw hg) hempty k steps).2

/-- Between tasks nothing is being worked out. -/
theorem idle_after (k : Nat) (steps : List Step) (n : NodeId) :
    ((after k (steps.map .perform) {}).2.graph.cell n).evaluating = false :=
  Graph.busyWith_nil.mp (endures_after Graph.endures_busyWith busyWith_empty k steps) n

/-- Whatever is asked for, and however far it has come: no way along dependencies leads back to where it
began. -/
theorem acyclic_after (k : Nat) (steps : List Step) (n : NodeId) :
    ¬ TransGen (after k (steps.map .perform) {}).2.graph.Uses n n :=
  (endures_after Graph.endures_orderly orderly_empty k steps).acyclic n

/-- Two expressions that come to name each other while both wait for their trees. The one that is read is being
worked out when the other asks for it, so the other is refused its tree. -/
example : (Workspace.run 100 {} ([.record "r" none, .expression "r" "a" "a" "1", .expression "r" "b" "b" "2",
    .read "a", .read "b", .setFormula "a" "b + 1", .setFormula "b" "a + 1", .read "a"].map .perform)).map
      (fun w => ((List.range w.graph.cells.size).any fun n => (w.graph.dependencies n).any (w.graph.dependsOn · n))) =
    some false := by
  decide +kernel

end Workspace

end FormulaGraph
