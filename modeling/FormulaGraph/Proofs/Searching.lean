import FormulaGraph.Graph.Reach
import Mathlib.Logic.Relation

/-! The search for a node comes to exactly those that can be reached. What it has been to leads only to where
it has been or has still to go. -/

namespace FormulaGraph

open Relation

variable {next : NodeId → List NodeId} {target n m : NodeId} {stack : List NodeId} {marks : Marks}

namespace Marks

theorem isNew_mark (marks : Marks) (n m : NodeId) :
    (marks.mark n).isNew m = (marks.isNew m && m != n) := by
  rw [isNew, mark, Array.getElem?_setIfInBounds, isNew]
  by_cases hn : n = m
  · subst hn
    by_cases hlt : n < marks.seen.size <;> simp [hlt]
  · have hne : m ≠ n := Ne.symm hn
    simp [hn, hne]

theorem size_mark : (marks.mark n).seen.size = marks.seen.size := Array.size_setIfInBounds

theorem lt_size_of_isNew (h : marks.isNew n = true) : n < marks.seen.size := by
  rw [isNew, beq_iff_eq] at h
  exact (Array.getElem?_eq_some_iff.mp h).1

theorem size_none (size : Nat) : (none size).seen.size = size := Array.size_replicate

theorem isNew_none {size : Nat} : (none size).isNew n = decide (n < size) := by
  rw [isNew, none, Array.getElem?_replicate]
  by_cases hn : n < size <;> simp [hn]

/-- The search is done with a node that it need not come to again, other than the target. -/
def Done (marks : Marks) (target n : NodeId) : Prop := marks.isNew n = false ∧ n ≠ target

theorem done_mark (hn : n ≠ target) : (marks.mark n).Done target m ↔ marks.Done target m ∨ m = n := by
  rw [Done, isNew_mark, Done]
  by_cases hm : m = n
  · simp [hm, hn]
  · simp [hm]

end Marks

/-- What is found can be reached from the stack, and the way there leaves only nodes that the search can mark. -/
theorem reached_of_reachesFrom (h : reachesFrom next target stack marks = true) :
    ∃ s ∈ stack, ReflTransGen (fun a b => a < marks.seen.size ∧ b ∈ next a) s target := by
  fun_induction reachesFrom next target stack marks with
  | case1 => cases h
  | case2 marks stack => exact ⟨target, List.mem_cons_self, .refl⟩
  | case3 marks n stack hn hnew ih =>
    obtain ⟨s, hs, hreach⟩ := ih h
    rw [Marks.size_mark] at hreach
    rcases List.mem_append.mp hs with hs | hs
    · exact ⟨n, List.mem_cons_self, .head ⟨Marks.lt_size_of_isNew hnew, List.mem_reverse.mp hs⟩ hreach⟩
    · exact ⟨s, List.mem_cons_of_mem _ hs, hreach⟩
  | case4 marks n stack hn hnew ih =>
    obtain ⟨s, hs, hreach⟩ := ih h
    exact ⟨s, List.mem_cons_of_mem _ hs, hreach⟩

/-- A search without success has gone through a set that no node leads out of. -/
theorem closed_of_reachesFrom (h : reachesFrom next target stack marks = false)
    (hclosed : ∀ x < marks.seen.size, marks.Done target x → ∀ y ∈ next x, y ∈ stack ∨ marks.Done target y) :
    ∃ closed : NodeId → Prop, (∀ x < marks.seen.size, closed x → ∀ y ∈ next x, closed y) ∧ ¬ closed target ∧
      (∀ x ∈ stack, closed x) ∧ ∀ x, marks.Done target x → closed x := by
  fun_induction reachesFrom next target stack marks with
  | case1 marks =>
    refine ⟨marks.Done target, fun x hlt hx y hy => ?_, fun ht => ht.2 rfl, ?_, fun _ => id⟩
    · exact (hclosed x hlt hx y hy).resolve_left List.not_mem_nil
    · exact fun _ hx => (List.not_mem_nil hx).elim
  | case2 => cases h
  | case3 marks n stack hn hnew ih =>
    have hdone : ∀ x, (marks.mark n).Done target x ↔ marks.Done target x ∨ x = n := fun x => Marks.done_mark hn
    obtain ⟨closed, hnext, htarget, hstack, hall⟩ := ih h fun x hlt hx y hy => by
      rcases (hdone x).mp hx with hx | rfl
      · rcases hclosed x (Marks.size_mark ▸ hlt) hx y hy with hy | hy
        · rcases List.mem_cons.mp hy with rfl | hy
          · exact .inr ((hdone y).mpr (.inr rfl))
          · exact .inl (List.mem_append_right _ hy)
        · exact .inr ((hdone y).mpr (.inl hy))
      · exact .inl (List.mem_append_left _ (List.mem_reverse.mpr hy))
    rw [Marks.size_mark] at hnext
    refine ⟨closed, hnext, htarget, fun x hx => ?_, fun x hx => hall x ((hdone x).mpr (.inl hx))⟩
    rcases List.mem_cons.mp hx with rfl | hx
    · exact hall x ((hdone x).mpr (.inr rfl))
    · exact hstack x (List.mem_append_right _ hx)
  | case4 marks n stack hn hnew ih =>
    have hdone : marks.Done target n := ⟨Bool.eq_false_iff.mpr hnew, hn⟩
    obtain ⟨closed, hnext, htarget, hstack, hall⟩ := ih h fun x hlt hx y hy => by
      rcases hclosed x hlt hx y hy with hy | hy
      · rcases List.mem_cons.mp hy with rfl | hy
        · exact .inr hdone
        · exact .inl hy
      · exact .inr hy
    refine ⟨closed, hnext, htarget, fun x hx => ?_, hall⟩
    rcases List.mem_cons.mp hx with rfl | hx
    · exact hall x hdone
    · exact hstack x hx

namespace Graph

variable {g : Graph} {replaced : Replaced}

theorem dependencies_of_size_le (h : g.cells.size ≤ n) : g.dependencies n = [] := by
  rw [dependencies, node, cell, Array.getElem?_eq_none h]
  rfl

/-- The search through a graph with other trees for some of its nodes is exact. A number that stands for no node
leads nowhere, also if there is another tree for it. -/
theorem reaches_iff_way : g.reaches replaced n target = true ↔
    ReflTransGen (fun a b => a < g.cells.size ∧ b ∈ g.nextWith replaced a) n target := by
  constructor
  · intro h
    obtain ⟨s, hs, hreach⟩ := reached_of_reachesFrom h
    rwa [List.mem_singleton.mp hs, Marks.size_none] at hreach
  · intro hreach
    cases h : g.reaches replaced n target with
    | true => rfl
    | false =>
      obtain ⟨closed, hnext, htarget, hstack, -⟩ := closed_of_reachesFrom h fun x hlt hx y hy => by
        -- At first the search is done with no node.
        have hnew := hx.1
        rw [Marks.size_none] at hlt
        rw [Marks.isNew_none, decide_eq_true hlt] at hnew
        cases hnew
      rw [Marks.size_none] at hnext
      have hclosed : closed target := by
        refine hreach.head_induction_on (motive := fun a _ => closed a → closed target) id
          (fun hstep _ ih ha => ih (hnext _ hstep.1 ha _ hstep.2)) (hstack n List.mem_cons_self)
      exact (htarget hclosed).elim

theorem reaches_iff (hreplaced : ∀ x, g.cells.size ≤ x → replaced.lookup x = none) :
    g.reaches replaced n target = true ↔ ReflTransGen (fun a b => b ∈ g.nextWith replaced a) n target := by
  have hwithin : ∀ a b, b ∈ g.nextWith replaced a → a < g.cells.size := fun a b hb =>
    Nat.lt_of_not_le fun hsize => by
      rw [nextWith, hreplaced a hsize, dependencies_of_size_le hsize] at hb
      cases hb
  simp only [reaches_iff_way, and_iff_right_of_imp (hwithin _ _)]

def Uses (g : Graph) (n d : NodeId) : Prop := d ∈ g.dependencies n

theorem dependsOn_iff : g.dependsOn n target = true ↔ ReflTransGen g.Uses n target :=
  reaches_iff fun _ _ => rfl

end Graph

end FormulaGraph
