import FormulaGraph.Proofs.Trying

/-! Putting several formulas in place together. Each of them is searched for a way back to its expression in the
graph that they would make, which finds every cycle there would be and no others. -/

namespace FormulaGraph

open FormulaGraph.Graph Relation

namespace Graph

variable {g s : Graph} {ext : List Hold} {trees : Replaced} {edits : List (NodeId × String)} {n m d : NodeId}

/-- An expression with a new tree reads its root, and every other node reads what it reads. -/
def Rewired (g : Graph) (trees : Replaced) (n d : NodeId) : Prop :=
  match trees.lookup n with
  | some root => d = root
  | none => g.Uses n d

theorem mem_nextWith_iff : d ∈ g.nextWith trees n ↔ g.Rewired trees n d := by
  rw [nextWith, Rewired]
  cases trees.lookup n with
  | none => exact Iff.rfl
  | some root => exact List.mem_singleton

/-- A way through the new graph is one through the old graph, or leads over the root of a new tree. -/
theorem way_of_rewired {a b : NodeId} (h : TransGen (g.Rewired trees) a b) :
    TransGen g.Uses a b ∨ ∃ n root, trees.lookup n = some root ∧ ReflTransGen (g.Rewired trees) a n ∧
      ReflTransGen (g.Rewired trees) root b := by
  have hstep : ∀ {x y}, g.Rewired trees x y → g.Uses x y ∨ trees.lookup x = some y := fun {x y} hxy => by
    rw [Rewired] at hxy
    generalize trees.lookup x = tree at hxy ⊢
    cases tree with
    | none => exact .inl hxy
    | some root => exact .inr (congrArg some hxy.symm)
  induction h with
  | @single b hab =>
    exact (hstep hab).imp .single fun hroot => ⟨a, b, hroot, .refl, .refl⟩
  | @tail b c hab hbc ih =>
    rcases hstep hbc with hold | hroot
    · rcases ih with hway | ⟨n, root, hroot, hto, hfrom⟩
      · exact .inl (hway.tail hold)
      · exact .inr ⟨n, root, hroot, hto, hfrom.tail hbc⟩
    · exact .inr ⟨b, c, hroot, hab.to_reflTransGen, .refl⟩

/-- In a graph without cycles there is one with the new trees just if one of these leads back. -/
theorem cycle_iff (ho : g.Orderly) : (∃ n, TransGen (g.Rewired trees) n n) ↔
    ∃ n root, trees.lookup n = some root ∧ ReflTransGen (g.Rewired trees) root n := by
  constructor
  · rintro ⟨n, hn⟩
    rcases way_of_rewired hn with hold | ⟨m, root, hroot, hto, hfrom⟩
    · exact (ho.acyclic n hold).elim
    · exact ⟨m, root, hroot, hfrom.trans hto⟩
  · rintro ⟨n, root, hroot, hback⟩
    refine ⟨n, .head' ?_ hback⟩
    rw [Rewired, hroot]

/-- The search through all edits is exact. -/
theorem cyclicEdit?_eq_none_iff (ho : g.Orderly) (hwithin : ∀ x, g.cells.size ≤ x → trees.lookup x = none)
    (hedits : ∀ n root, trees.lookup n = some root → ∃ text, (n, text) ∈ edits) :
    g.cyclicEdit? trees edits = none ↔ ∀ n, ¬ TransGen (g.Rewired trees) n n := by
  have hreaches : ∀ root n, g.reaches trees root n = true ↔ ReflTransGen (g.Rewired trees) root n := by
    have hnext : (fun a b => b ∈ g.nextWith trees a) = g.Rewired trees := by
      funext a b
      exact propext mem_nextWith_iff
    exact fun root n => hnext ▸ reaches_iff hwithin
  rw [← not_exists, cycle_iff ho, cyclicEdit?, Option.map_eq_none_iff, List.find?_eq_none]
  constructor
  · rintro hnone ⟨n, root, hroot, hback⟩
    obtain ⟨text, hmem⟩ := hedits n root hroot
    refine hnone (n, text) hmem ?_
    dsimp only
    rw [hroot]
    exact (hreaches root n).mpr hback
  · rintro hfree ⟨n, text⟩ - hfound
    dsimp only at hfound
    cases hroot : trees.lookup n with
    | none =>
      rw [hroot] at hfound
      cases hfound
    | some root =>
      rw [hroot] at hfound
      exact hfree ⟨n, root, hroot, (hreaches root n).mp hfound⟩

theorem Trial.exists_edit (h : Trial g edits trees s) {root : NodeId} (hroot : trees.lookup n = some root) :
    ∃ text, (n, text) ∈ edits ∧ n < g.cells.size := by
  cases hlast : edits.reverse.lookup n with
  | none =>
    rw [h.others n hlast] at hroot
    cases hroot
  | some text =>
    obtain ⟨_, _, _, hnode, -⟩ := h.edited n text hlast
    obtain ⟨before, after, hsplit, -⟩ := List.lookup_eq_some_iff.mp hlast
    refine ⟨text, List.mem_reverse.mp (hsplit ▸ List.mem_append_right _ List.mem_cons_self), ?_⟩
    by_contra hlt
    rw [Graph.node, cell, Array.getElem?_eq_none (Nat.le_of_not_lt hlt)] at hnode
    cases hnode

theorem Trial.none (g : Graph) : Trial g [] [] g where
  edited _ _ hn := nomatch hn
  others _ _ := rfl
  kept _ _ := rfl

/-- Formulas that can all be built are refused just if they would make a cycle together. -/
theorem checkFormulas_of_trial (ht : Trying g ext trees s) (htrial : Trial g edits trees s)
    (hbuilt : g.buildAll [] edits = (.ok trees, s)) :
    ((g.checkFormulas edits).1 = .ok () ↔ ∀ n, ¬ TransGen (s.Rewired trees) n n) ∧
      ∀ fault, (g.checkFormulas edits).1 = .error fault → ∃ e n,
        fault = .formula e ∧ e.message = "cyclic reference" ∧ (n, e.source) ∈ edits := by
  have hwithin : ∀ x, s.cells.size ≤ x → trees.lookup x = none := fun x hx => by
    by_contra hsome
    obtain ⟨root, hroot⟩ := Option.ne_none_iff_exists'.mp hsome
    obtain ⟨-, -, hlt⟩ := htrial.exists_edit hroot
    exact Nat.lt_irrefl _ (Nat.lt_of_lt_of_le (Nat.lt_of_lt_of_le hlt ht.grows.size) hx)
  have hsearch : s.cyclicEdit? trees edits = none ↔ ∀ n, ¬ TransGen (s.Rewired trees) n n :=
    cyclicEdit?_eq_none_iff ht.orderly hwithin fun n root hroot => (htrial.exists_edit hroot).imp fun _ h => h.1
  rw [← hsearch, checkFormulas, hbuilt]
  dsimp only
  cases hcyclic : s.cyclicEdit? trees edits with
  | none =>
    refine ⟨⟨fun _ => rfl, fun _ => rfl⟩, fun fault hfault => ?_⟩
    cases hfault
  | some text =>
    obtain ⟨⟨n, text'⟩, hfound, rfl⟩ := Option.map_eq_some_iff.mp hcyclic
    refine ⟨⟨fun hok => ?_, fun hnone => ?_⟩, fun fault hfault => ?_⟩
    · cases hok
    · cases hnone
    · cases hfault
      exact ⟨_, n, rfl, rfl, List.mem_of_find?_eq_some hfound⟩

end Graph

namespace Workspace

variable {w : Workspace}

/-- In every state that is reached and in which no formula waits to be built, formulas that can each be built are
accepted together just if no node would come to read itself. -/
theorem checkFormulas_iff_acyclic {limit : Nat} {steps : List Step} {edits : List (NodeId × String)}
    (h : Workspace.run limit {} (steps.map .perform) = some w)
    (hsteady : ∀ m, w.graph.isLive m = true → (w.graph.node m).isPending = false)
    (hparses : ∀ e ∈ edits, w.graph.parses e.1 e.2 = true) :
    ∃ trees g, w.graph.buildAll [] edits = (.ok trees, g) ∧ w.graph.Trial edits trees g ∧
      ((w.graph.checkFormulas edits).1 = .ok () ↔ ∀ n, ¬ TransGen (g.Rewired trees) n n) ∧
        ∀ fault, (w.graph.checkFormulas edits).1 = .error fault → ∃ e n,
          fault = .formula e ∧ e.message = "cyclic reference" ∧ (n, e.source) ∈ edits := by
  have hsound := sound_of_run h
  have hstart : Trying w.graph w.holds [] w.graph := ⟨hsound, orderly_of_run h, idle_of_run h, .refl _⟩
  obtain ⟨trees, g, hbuilt, ht, htrial⟩ := hstart.buildAll hsound (orderly_of_run h)
    (fun m hm => hsteady m (decide_eq_true hm)) (.none w.graph) hparses
  rw [List.nil_append] at htrial
  exact ⟨trees, g, hbuilt, htrial, checkFormulas_of_trial ht htrial hbuilt⟩

/-- "b" is above "a". -/
def aboveSteps : List Step :=
  [.record "r" none, .expression "r" "a" "a" "1", .expression "r" "b" "b" "a + 1", .read "b"]

/-- "a" can be put above "b" if "b" is taken away from "a" together with that. The last edit of "b" decides. -/
theorem acyclic_of_reversed :
    ∃ w a b, Workspace.run 100 {} (aboveSteps.map .perform) = some w ∧
      (∀ m, w.graph.isLive m = true → (w.graph.node m).isPending = false) ∧
        (∃ trees g, w.graph.buildAll [] [(a, "b"), (b, "a"), (b, "2")] = (.ok trees, g) ∧
          ∀ n, ¬ TransGen (g.Rewired trees) n n) ∧
        ∃ trees g, w.graph.buildAll [] [(a, "b"), (b, "2"), (b, "a")] = (.ok trees, g) ∧
          ∃ n, TransGen (g.Rewired trees) n n := by
  have hrun : ((Workspace.run 100 {} (aboveSteps.map .perform)).bind fun w => w.handles["a"]?.bind fun a =>
      w.handles["b"]?.map fun b =>
        (w.graph.cells.all (fun c => c.owners == 0 || !c.node.isPending),
          [(a, "b"), (b, "a"), (b, "2")].all fun e => w.graph.parses e.1 e.2,
          (w.graph.checkFormulas [(a, "b"), (b, "a"), (b, "2")]).1.toOption,
          (w.graph.checkFormulas [(a, "b"), (b, "2"), (b, "a")]).1.toOption)) = some (true, true, some (), none) := by
    decide +kernel
  obtain ⟨w, hw, hrun⟩ := Option.bind_eq_some_iff.mp hrun
  obtain ⟨a, -, hrun⟩ := Option.bind_eq_some_iff.mp hrun
  obtain ⟨b, -, hrun⟩ := Option.map_eq_some_iff.mp hrun
  simp only [Prod.mk.injEq] at hrun
  obtain ⟨hall, hparses, hok, hrefused⟩ := hrun
  have hsteady := steady_of_all hall
  have hfirst := List.all_eq_true.mp hparses
  have hsecond : ∀ e ∈ [(a, "b"), (b, "2"), (b, "a")], w.graph.parses e.1 e.2 = true := fun e he =>
    hfirst e ((List.Perm.swap (b, "a") (b, "2") []).cons (a, "b") |>.mem_iff.mp he)
  obtain ⟨trees, g, hbuilt, -, hiff, -⟩ := checkFormulas_iff_acyclic hw hsteady hfirst
  obtain ⟨trees', g', hbuilt', -, hiff', -⟩ := checkFormulas_iff_acyclic hw hsteady hsecond
  refine ⟨w, a, b, hw, hsteady, ⟨trees, g, hbuilt, hiff.mp (toOption_eq_some.mp hok)⟩, trees', g', hbuilt', ?_⟩
  by_contra hfree
  rw [hiff'.mpr (not_exists.mp hfree)] at hrefused
  cases hrefused

end Workspace

end FormulaGraph
