import FormulaGraph.Proofs.Meaning
import FormulaGraph.Proofs.Plain
import FormulaGraph.Proofs.Stages

/-! Reading while others are still to be told. A value that is read then is right, unless the node leads to one
that is still to be told; such a node may pass off as right what it has kept. -/

namespace FormulaGraph

open FormulaGraph.Graph Relation

namespace Graph

/-- What the nodes come to, up to the first failure. -/
def workedOutAll (work : NodeId → Option (Checked Value)) : List NodeId → Option (Checked (List Value))
  | [] => some (.ok [])
  | n :: nodes =>
    match work n with
    | none => none
    | some (.error e) => some (.error e)
    | some (.ok v) => (workedOutAll work nodes).map fun r => r.map (v :: ·)

/-- Works everything out again that the node reads, at most so far down. -/
def workedOut (g : Graph) : Nat → NodeId → Option (Checked Value)
  | 0, _ => none
  | k + 1, n =>
    match g.node n with
    | .constant value | .input value => some (.ok value)
    | .calculation operation operands offset _ =>
      (workedOutAll (g.workedOut k) operands).map fun r => r.bind fun values => applyAt operation values offset
    | .expression _ (.built tree) => (g.workedOut k tree.root).map fun r => r.mapError (·.attach tree.text)
    | .expression .. => none

variable {g : Graph} {n : NodeId} {nodes : List NodeId}

theorem evaluatesAll_of_workedOutAll {work : NodeId → Option (Checked Value)} {r : Checked (List Value)}
    (hwork : ∀ n r, work n = some r → g.Evaluates n r) (h : workedOutAll work nodes = some r) :
    g.EvaluatesAll nodes r := by
  induction nodes generalizing r with
  | nil =>
    cases h
    exact .nil
  | cons n nodes ih =>
    rw [workedOutAll] at h
    rcases hn : work n with _ | ⟨e | v⟩
    · rw [hn] at h
      cases h
    · rw [hn] at h
      cases h
      exact .failed (hwork n _ hn)
    · rw [hn] at h
      obtain ⟨rest, hrest, rfl⟩ := Option.map_eq_some_iff.mp h
      exact .cons (hwork n _ hn) (ih hrest)

theorem evaluates_of_workedOut {k : Nat} {r : Checked Value} (h : g.workedOut k n = some r) : g.Evaluates n r := by
  induction k generalizing n r with
  | zero => cases h
  | succ k ih =>
    rw [workedOut] at h
    cases hn : g.node n with
    | constant value =>
      rw [hn] at h
      cases h
      exact .constant hn
    | input value =>
      rw [hn] at h
      cases h
      exact .input hn
    | calculation operation operands offset tickets =>
      rw [hn] at h
      obtain ⟨rs, hrs, rfl⟩ := Option.map_eq_some_iff.mp h
      exact .calculation hn (evaluatesAll_of_workedOutAll (fun n r => ih) hrs)
    | expression scope source =>
      rw [hn] at h
      cases source with
      | built tree =>
        obtain ⟨root, hroot, rfl⟩ := Option.map_eq_some_iff.mp h
        exact .expression hn (ih hroot)
      | unbuilt | edited => cases h

end Graph

/-- The name of the node that a script asks for with it. -/
def Step.reads? : Step → Option String
  | .read id => some id
  | _ => none

def Task.reads? : Task → Option String
  | .perform step => step.reads?
  | _ => none

theorem Task.eq_of_reads? {task : Task} {id : String} (h : task.reads? = some id) : task = .perform (.read id) := by
  cases task with
  | perform step =>
    cases step with
    | read id' =>
      cases h
      rfl
    | _ => cases h
  | _ => cases h

theorem mem_of_told {tasks : List Task} {d : NodeId} (h : d ∈ tasks.flatMap Task.told) : .tell (.node d) ∈ tasks := by
  obtain ⟨task, htask, hd⟩ := List.mem_flatMap.mp h
  cases task with
  | tell listener =>
    cases listener with
    | node n =>
      rw [List.mem_singleton.mp hd]
      exact htask
    | callback key => cases hd
  | _ => cases hd

namespace Workspace

variable {w : Workspace} {n : NodeId}

/-- At every moment, also in the middle of telling listeners of a change: a value that is read is what working
everything out again comes to, if the node that is read leads to none that is still to be told. -/
theorem evaluates_of_untold {k : Nat} {steps : List Step} {tasks : List Task}
    (h : after k (steps.map .perform) {} = (tasks, w)) {id : String} (hn : w.handles[id]? = some n) {v : Value}
    {g : Graph} (hr : w.graph.read n = (.ok v, g))
    (huntold : ∀ d, g.dependsOn n d = true → .tell (.node d) ∉ tasks) : g.Evaluates n (.ok v) := by
  obtain ⟨hsound, horderly⟩ := sound_after (P := fun w => w.graph.Orderly)
    (fun _ _ task _ hw hg => advance_endures Graph.endures_orderly task hw hg) orderly_empty k steps
  rw [h] at hsound horderly
  have hheld : .node n ∈ tasks.flatMap Task.holds ++ w.holds := List.mem_append_right _ (mem_holds_of_handle hn)
  obtain ⟨hsound', -, hkept⟩ := readNode_reads hsound (.outside hheld)
  have horderly' := horderly.read hsound (.outside hheld)
  rw [Graph.read] at hr horderly'
  rw [hr] at hsound' hkept horderly'
  refine hsound'.evaluates_of_has horderly' (hsound'.accounts.node_live hheld) (hkept v rfl) fun d hd hmem => ?_
  exact huntold d (dependsOn_iff.mpr hd) (mem_of_told hmem)

/-- A watch that reads what follows from the change, and is told after all that does. -/
def toldAfterSteps : List Step :=
  [.record "r" none, .input "r" "v" "v" (.bool true), .expression "r" "a" "a" "!v", .read "a",
    .watch "w" "v" [.read "a"], .set "v" (.bool false)]

theorem evaluates_of_toldAfter :
    ∃ tasks w n v g, after 14 (toldAfterSteps.map .perform) {} = (.perform (.read "a") :: tasks, w) ∧
      w.handles["a"]? = some n ∧ w.graph.read n = (.ok v, g) ∧ v.asBool? = some true ∧ g.Evaluates n (.ok v) := by
  have hread : (match after 14 (toldAfterSteps.map .perform) {} with
      | (task :: tasks, w) => w.handles["a"]?.map fun n =>
        (task.reads?, tasks.all (fun task => task.told.isEmpty), (w.graph.read n).1.toOption.bind Value.asBool?)
      | ([], _) => none) = some (some "a", true, some true) := by
    decide +kernel
  rcases hafter : after 14 (toldAfterSteps.map .perform) {} with ⟨_ | ⟨task, tasks⟩, w⟩
  · rw [hafter] at hread
    cases hread
  · rw [hafter] at hread
    obtain ⟨n, hn, hread⟩ := Option.map_eq_some_iff.mp hread
    simp only [Prod.mk.injEq] at hread
    obtain ⟨htask, hall, hvalue⟩ := hread
    obtain rfl := Task.eq_of_reads? htask
    obtain ⟨v, hv, hbool⟩ := Option.bind_eq_some_iff.mp hvalue
    obtain ⟨g, hr⟩ : ∃ g, w.graph.read n = (.ok v, g) := ⟨(w.graph.read n).2, Prod.ext (toOption_eq_some.mp hv) rfl⟩
    refine ⟨tasks, w, n, v, g, rfl, hn, hr, hbool, evaluates_of_untold hafter hn hr fun d _ hmem => ?_⟩
    rcases List.mem_cons.mp hmem with he | hmem
    · cases he
    · cases List.all_eq_true.mp hall _ hmem

/-- "c" follows from "a" and "b", which are the same whatever "v" is. The watch on "c" is told before "b" is. -/
def toldBetweenSteps : List Step :=
  [.record "r" none, .input "r" "v" "v" (.bool true), .expression "r" "a" "a" "!v", .expression "r" "b" "b" "!v",
    .expression "r" "c" "c" "a == b", .read "c", .watch "w" "c" [.read "c"], .set "v" (.bool false)]

/-- The script reads a value that "c" has with no value of "v". -/
theorem evaluates_ne_of_toldBetween :
    ∃ tasks w n v v' g, after 20 (toldBetweenSteps.map .perform) {} = (.perform (.read "c") :: tasks, w) ∧
      w.handles["c"]? = some n ∧ w.graph.read n = (.ok v, g) ∧ v.asBool? = some false ∧
        g.Evaluates n (.ok v') ∧ v'.asBool? = some true := by
  have hread : (match after 20 (toldBetweenSteps.map .perform) {} with
      | (task :: _, w) => w.handles["c"]?.map fun n =>
        (task.reads?, (w.graph.read n).1.toOption.bind Value.asBool?,
          ((w.graph.read n).2.workedOut 10 n).bind fun r => r.toOption.bind Value.asBool?)
      | ([], _) => none) = some (some "c", some false, some true) := by
    decide +kernel
  rcases hafter : after 20 (toldBetweenSteps.map .perform) {} with ⟨_ | ⟨task, tasks⟩, w⟩
  · rw [hafter] at hread
    cases hread
  · rw [hafter] at hread
    obtain ⟨n, hn, hread⟩ := Option.map_eq_some_iff.mp hread
    simp only [Prod.mk.injEq] at hread
    obtain ⟨htask, hvalue, hworked⟩ := hread
    obtain rfl := Task.eq_of_reads? htask
    obtain ⟨v, hv, hbool⟩ := Option.bind_eq_some_iff.mp hvalue
    obtain ⟨r, hr, hworked⟩ := Option.bind_eq_some_iff.mp hworked
    obtain ⟨v', hv', hbool'⟩ := Option.bind_eq_some_iff.mp hworked
    rw [toOption_eq_some.mp hv'] at hr
    exact ⟨tasks, w, n, v, v', _, rfl, hn, Prod.ext (toOption_eq_some.mp hv) rfl, hbool,
      Graph.evaluates_of_workedOut hr, hbool'⟩

end Workspace

end FormulaGraph
