import FormulaGraph.Proofs.Retrying

/-! Applying a change of one formula, which has been tried out when the change was made. If nothing else waits to
be built, the formula is there to stay. A change of several formulas gives no such assurance, since each of them
is tried out against what the others are before. -/

namespace FormulaGraph

open FormulaGraph.Graph Relation

namespace Graph

variable {g g' : Graph} {ext : List Hold} {n m d root : NodeId} {scope : RecordId} {source : Source}
  {text : String} {listeners : List Listener}

/-- How a change of one formula is tried out. -/
theorem formulaChange_single {change : Change} (h : g.formulaChange [(n, text)] = (.ok change, g')) :
    ∃ scope source root g₁, g.node n = .expression scope source ∧ g.scopeIsLive scope = true ∧
      g.parse scope text = (.ok root, g₁) ∧ g₁.reaches [(n, root)] root n = false ∧
        change.holds = [.node n] ∧ change.applyTasks = [.setFormula n text] ∧
          g' = (g₁.release [.node root]).retain (.node n) := by
  rw [formulaChange, checkFormulas, buildAll] at h
  cases hnode : g.node n with
  | constant | input | calculation =>
    rw [hnode] at h
    cases h
  | expression scope source =>
    rw [hnode] at h
    dsimp only at h
    by_cases hs : g.scopeIsLive scope = true
    · rw [if_pos hs] at h
      generalize hparse : g.parse scope text = parsed at h
      rcases parsed with ⟨e | root, g₁⟩
      · cases h
      · have hnone : g₁.release ((List.lookup n ([] : Replaced)).toList.map .node) = g₁ := by
          rw [List.lookup_nil, Option.toList_none, List.map_nil, release]
        simp only [hnone, List.filter_nil, buildAll, cyclicEdit?, List.find?_cons, List.find?_nil, List.lookup_cons,
          beq_self_eq_true] at h
        cases hreaches : g₁.reaches [(n, root)] root n with
        | true =>
          rw [hreaches] at h
          cases h
        | false =>
          rw [hreaches] at h
          cases h
          exact ⟨scope, source, root, g₁, rfl, hs, hparse, hreaches, rfl, rfl, rfl⟩
    · rw [if_neg hs] at h
      cases h

/-- Taking the new tree for granted leads to the expression just if the new tree leads there without it. -/
theorem apart_of_reaches (hn : n < g.cells.size) (h : g.reaches [(n, root)] root n = false) :
    ¬ ReflTransGen g.Uses root n := by
  intro hroot
  have hreplaced : ∀ x, g.cells.size ≤ x → List.lookup x [(n, root)] = none := fun x hx => by
    rw [List.lookup_cons, beq_eq_false_iff_ne.mpr (Nat.ne_of_gt (Nat.lt_of_lt_of_le hn hx))]
    rfl
  refine Bool.eq_false_iff.mp h ((reaches_iff hreplaced).mpr ?_)
  refine hroot.head_induction_on (motive := fun a _ => ReflTransGen (fun a b => b ∈ g.nextWith [(n, root)] a) a n)
    .refl fun {a b} hstep _ ih => ?_
  by_cases ha : a = n
  · exact ha ▸ .refl
  · refine .head ?_ ih
    rw [nextWith, List.lookup_cons, beq_eq_false_iff_ne.mpr ha]
    exact hstep

/-- What is live and reads nothing that waits to be built stays as it is. -/
theorem GrowsOn.steady_below (hgrows : g.Grows g') (hg : g.Accounts ext)
    (hsteady : ∀ m, 0 < (g.cell m).owners → (g.node m).isPending = false) (hn : 0 < (g.cell n).owners)
    (h : ReflTransGen g'.Uses n d) : 0 < (g.cell d).owners ∧ g'.node d = g.node d := by
  have hsame : ∀ m, 0 < (g.cell m).owners → g'.node m = g.node m := fun m hm =>
    hgrows.node m trivial (lt_size_of_owners_pos hm) (.inl (hsteady m hm))
  suffices hd : 0 < (g.cell d).owners from ⟨hd, hsame d hd⟩
  induction h with
  | refl => exact hn
  | tail _ hstep ih =>
    rw [Uses, dependencies, hsame _ ih] at hstep
    exact hg.dependency_live ih hstep

/-- A formula that is parsed has been tried out, if nothing else waits to be built. -/
theorem triedOut_of_parse (h : g.Sound ext []) (ho : g.Orderly)
    (hsteady : ∀ m, 0 < (g.cell m).owners → (g.node m).isPending = false) (hs : g.scopeIsLive scope = true)
    (hn : n < g.cells.size) (hparse : g.parse scope text = (.ok root, g'))
    (hfree : g'.reaches [(n, root)] root n = false) :
    g.Grows g' ∧ g'.TriedOut (.node root :: ext) n scope text root := by
  obtain ⟨hsound, hgrows⟩ := h.of_parse hs hparse
  refine ⟨hgrows, ?_⟩
  refine
    { sound := hsound
      orderly := ho.of_parse h hs hparse
      built := parse_built readNode_reads h (of_decide_eq_true hs) hparse
      live := hsound.accounts.node_live List.mem_cons_self
      apart := apart_of_reaches (Nat.lt_of_lt_of_le hn hgrows.size) hfree
      steady := fun r name m d hr hm hd => ?_ }
  rw [record, hgrows.records] at hr
  have hlive := live_of_resolve? h.accounts hr ((resolve?_of_records hgrows.records r name).symm.trans hm)
  obtain ⟨hlived, hsame⟩ := hgrows.steady_below h.accounts hsteady hlive hd
  rw [hsame]
  exact hsteady d hlived

/-- A change of one formula is made only when the formula has been tried out, and leaves the expression alone. -/
theorem triedOut_of_formulaChange {change : Change} (h : g.Sound ext []) (ho : g.Orderly)
    (hsteady : ∀ m, 0 < (g.cell m).owners → (g.node m).isPending = false) (hn : 0 < (g.cell n).owners)
    (hchange : g.formulaChange [(n, text)] = (.ok change, g')) :
    change.holds = [.node n] ∧ change.applyTasks = [.setFormula n text] ∧ n < g'.cells.size ∧
      ∃ (scope : RecordId) (source : Source) (root : NodeId) (g₁ : Graph),
        g'.node n = .expression scope source ∧ g₁.Alike g' ∧
          g₁.TriedOut (.node root :: ext) n scope text root := by
  obtain ⟨scope, source, root, g₁, hnode, hs, hparse, hfree, hholds, htasks, rfl⟩ := formulaChange_single hchange
  have hlt := lt_size_of_owners_pos hn
  obtain ⟨hgrows, htried⟩ := triedOut_of_parse h ho hsteady hs hlt hparse hfree
  have halike : g₁.Alike ((g₁.release [.node root]).retain (.node n)) :=
    (alike_release (by simp [Hold.isRecord])).trans
      (alike_modifyCell (by exact fun _ => rfl) (by exact fun _ => rfl))
  have hsame := hgrows.node n trivial hlt (.inl (hsteady n hn))
  refine ⟨hholds, htasks, ?_, scope, source, root, g₁, ?_, halike, htried⟩
  · rw [halike.size]
    exact Nat.lt_of_lt_of_le hlt hgrows.size
  · rw [halike.node, hsame, hnode]

/-- Setting a formula changes one node, which has the formula then. -/
theorem setFormula_ok (hnode : g.node n = .expression scope source) (hlt : n < g.cells.size)
    (h : g.setFormula n text = .ok (listeners, g')) :
    g'.records = g.records ∧ (∀ m, m ≠ n → g'.node m = g.node m) ∧
      ∃ source', g'.node n = .expression scope source' ∧ source'.text = text := by
  rw [setFormula, hnode] at h
  dsimp only at h
  by_cases htext : source.text = text
  · rw [if_pos htext] at h
    cases h
    exact ⟨rfl, fun _ _ => rfl, source, hnode, htext⟩
  · rw [if_neg htext] at h
    obtain rfl := congrArg Prod.snd (Except.ok.inj h)
    refine ⟨alike_dirtied.records, fun m hm => ?_, source.edit text, ?_, ?_⟩
    · rw [alike_dirtied.node, Graph.node, cell_modifyCell_of_ne hm, Graph.node]
    · rw [alike_dirtied.node, Graph.node, cell_modifyCell_self hlt]
    · cases source <;> rfl

end Graph

namespace Workspace

variable {w w' : Workspace} {rest : List Hold} {n : NodeId} {text : String}

/-- Whatever is watched, nothing is done about it. -/
def Quiet (w : Workspace) : Prop := ∀ watch ∈ w.watches, watch.script = []

/-- Telling of a change leaves everything as it is but for what is dirty. -/
theorem alike_of_tells {limit : Nat} {listeners : List Listener} (hquiet : w.Quiet)
    (h : w.Sound rest (toldBy listeners)) (hr : w.run limit (listeners.map .tell) = some w') :
    w'.Sound rest [] ∧ w.graph.Alike w'.graph := by
  have hstart : w.Sound ((listeners.map Task.tell).flatMap Task.holds ++ rest)
      ((listeners.map Task.tell).flatMap Task.told) := by
    rw [holds_map_tell, told_map_tell]
    exact h
  refine (run_induction (P := fun tasks w₁ =>
    w₁.Sound (tasks.flatMap Task.holds ++ rest) (tasks.flatMap Task.told) ∧ w.graph.Alike w₁.graph ∧ w₁.Quiet ∧
      ∀ task ∈ tasks, ∃ listener, task = .tell listener) (fun task tasks w₁ hw => ?_)
    ⟨hstart, .refl _, hquiet, fun task htask => ?_⟩ hr).imp_right And.left
  · obtain ⟨hsound, halike, hquiet₁, htells⟩ := hw
    rw [List.flatMap_cons, List.flatMap_cons, List.append_assoc] at hsound
    have hsound' := advance_sound task hsound
    rw [Next.Sound, ← List.append_assoc, ← List.flatMap_append, ← List.flatMap_append] at hsound'
    refine ⟨hsound', ?_⟩
    obtain ⟨listener, rfl⟩ := htells task List.mem_cons_self
    have hrest := fun task htask => htells task (List.mem_cons_of_mem _ htask)
    cases listener with
    | node m =>
      refine ⟨halike.trans alike_tell, hquiet₁, fun task htask => ?_⟩
      rcases List.mem_append.mp htask with htask | htask
      · obtain ⟨listener, -, rfl⟩ := List.mem_map.mp htask
        exact ⟨listener, rfl⟩
      · exact hrest task htask
    | callback key =>
      rw [advance, tell]
      cases hkey : w₁.watches[key]? with
      | none => exact ⟨halike, hquiet₁, hrest⟩
      | some watch =>
        refine ⟨halike, hquiet₁, fun task htask => ?_⟩
        dsimp only at htask
        rw [hquiet₁ watch (Array.mem_of_getElem? hkey)] at htask
        exact hrest task htask
  · obtain ⟨listener, -, rfl⟩ := List.mem_map.mp htask
    exact ⟨listener, rfl⟩

/-- Setting a formula as part of a change comes to setting it and telling of it. -/
theorem alike_of_setFormula {limit : Nat} (hquiet : w.Quiet) (h : w.Sound rest [])
    (hexpression : (w.graph.node n).isExpression = true)
    (hr : w.run limit [.setFormula n text] = some w') :
    w'.Sound rest [] ∧ ∃ listeners g, w.graph.setFormula n text = .ok (listeners, g) ∧ g.Alike w'.graph := by
  cases limit with
  | zero => cases hr
  | succ limit =>
    rw [run] at hr
    dsimp only at hr
    rw [List.append_nil] at hr
    have hedit := Graph.setFormula_sound h n text
    rw [advance] at hr
    generalize hset : w.graph.setFormula n text = edited at hr hedit
    rcases edited with fault | ⟨listeners, g⟩
    · rw [Graph.setFormula] at hset
      cases hnode : w.graph.node n with
      | constant | input | calculation =>
        rw [hnode] at hexpression
        cases hexpression
      | expression scope source =>
        rw [hnode] at hset
        dsimp only at hset
        split at hset <;> cases hset
    · rw [Graph.EditSound, List.append_nil] at hedit
      obtain ⟨hsound, halike⟩ := alike_of_tells (w := { w with graph := g }) hquiet hedit hr
      exact ⟨hsound, listeners, g, rfl, halike⟩

/-- A change of one formula that is accepted in a state that is reached and in which no formula waits to be
built: when it has been applied and the expression is read, the formula stays. -/
theorem formula_of_applied {limit limit' : Nat} {steps : List Step}
    (h : Workspace.run limit {} (steps.map .perform) = some w)
    (hsteady : ∀ m, w.graph.isLive m = true → (w.graph.node m).isPending = false) (hquiet : w.Quiet)
    {id : String} (hn : w.handles[id]? = some n) {change : Change} {g : Graph}
    (hchange : w.graph.formulaChange [(n, text)] = (.ok change, g))
    (happly : { w with graph := g }.run limit' change.applyTasks = some w') :
    ((w'.graph.read n).2.node n).formula? = some text := by
  obtain ⟨hsound, horderly⟩ := endures_of_run Graph.endures_orderly orderly_empty h
  have hheld : .node n ∈ [] ++ w.holds := List.mem_append_right _ (mem_holds_of_handle hn)
  obtain ⟨hholds, htasks, hlt, scope, source, root, g₁, hnode, halike, htried⟩ :=
    triedOut_of_formulaChange hsound horderly (fun m hm => hsteady m (decide_eq_true hm))
      (hsound.accounts.node_live hheld) hchange
  have hedits : ∀ e ∈ [(n, text)], .node e.1 ∈ [] ++ w.holds := fun e he => by
    rw [List.mem_singleton.mp he]
    exact hheld
  have hmade := formulaChange_sound hsound hedits
  rw [hchange] at hmade
  rw [htasks] at happly
  obtain ⟨hsound', listeners, g₂, hset, halike'⟩ :=
    alike_of_setFormula (w := { w with graph := g }) hquiet hmade (by rw [hnode]; rfl) happly
  obtain ⟨hrecords, hother, source', hnode', htext⟩ := setFormula_ok hnode hlt hset
  have hkeeps : ∀ {P : List NodeId → Graph → Prop}, Endures P → P [] w.graph → P [] w'.graph := fun hP hw => by
    have hchanged := hP.formulaChange hw hsound hedits
    rw [hchange] at hchanged
    exact hP.alike (hP.setFormula hchanged hset) halike'
  have hidle := busyWith_nil.mp (hkeeps endures_busyWith (busyWith_nil.mpr (idle_of_run h)))
  have hanchored : w'.graph.Anchored (change.holds ++ w'.holds) n :=
    .outside (hholds ▸ List.mem_append_left _ (List.mem_singleton_self _))
  have hnow : w'.graph.node n = .expression scope source' := (halike'.node n).trans hnode'
  exact htried.formula_read hsound' (hkeeps endures_orderly horderly) hanchored hidle
    (halike'.records.trans (hrecords.trans halike.records))
    (fun m hm => (halike'.node m).trans ((hother m hm).trans (halike.node m))) hnow htext

/-- Neither formula names the other. -/
def apartSteps : List Step :=
  [.record "r" none, .expression "r" "a" "a" "1", .expression "r" "b" "b" "2", .read "a", .read "b"]

theorem formula_of_applied_sum :
    ∃ w n change g w', Workspace.run 100 {} (apartSteps.map .perform) = some w ∧
      (∀ m, w.graph.isLive m = true → (w.graph.node m).isPending = false) ∧ w.Quiet ∧ w.handles["b"]? = some n ∧
        w.graph.formulaChange [(n, "a + 1")] = (.ok change, g) ∧
          { w with graph := g }.run 100 change.applyTasks = some w' ∧
            ((w'.graph.read n).2.node n).formula? = some "a + 1" := by
  have hdone : ((Workspace.run 100 {} (apartSteps.map .perform)).bind fun w => w.handles["b"]?.bind fun n =>
      (w.graph.formulaChange [(n, "a + 1")]).1.toOption.bind fun change =>
        ({ w with graph := (w.graph.formulaChange [(n, "a + 1")]).2 }.run 100 change.applyTasks).map fun _ =>
          (w.graph.cells.all (fun c => c.owners == 0 || !c.node.isPending), w.watches.isEmpty)) =
        some (true, true) := by
    decide +kernel
  obtain ⟨w, hw, hdone⟩ := Option.bind_eq_some_iff.mp hdone
  obtain ⟨n, hn, hdone⟩ := Option.bind_eq_some_iff.mp hdone
  obtain ⟨change, hchange, hdone⟩ := Option.bind_eq_some_iff.mp hdone
  obtain ⟨w', hw', hdone⟩ := Option.map_eq_some_iff.mp hdone
  obtain ⟨hall, hwatches⟩ := Prod.mk.inj hdone
  have hsteady := steady_of_all hall
  have hquiet : w.Quiet := fun watch hwatch => by
    rw [Array.isEmpty_iff.mp hwatches] at hwatch
    exact (Array.not_mem_empty watch hwatch).elim
  have hmade : w.graph.formulaChange [(n, "a + 1")] = (.ok change, (w.graph.formulaChange [(n, "a + 1")]).2) :=
    Prod.ext (toOption_eq_some.mp hchange) rfl
  exact ⟨w, n, change, _, w', hw, hsteady, hquiet, hn, hmade, hw', formula_of_applied hw hsteady hquiet hn hmade hw'⟩

/-- A change of both that is accepted, as "b" is tried out while "a" is still a number. When both have been read,
"b" has its old formula again. -/
theorem formula_lost_of_applied :
    ∃ w a b change g w', Workspace.run 100 {} (apartSteps.map .perform) = some w ∧ w.handles["a"]? = some a ∧
      w.handles["b"]? = some b ∧ w.graph.formulaChange [(a, "true"), (b, "a + 1")] = (.ok change, g) ∧
        { w with graph := g }.run 100 change.applyTasks = some w' ∧
          (((w'.graph.read a).2.read b).2.node b).formula? = some "2" := by
  have hdone : ((Workspace.run 100 {} (apartSteps.map .perform)).bind fun w => w.handles["a"]?.bind fun a =>
      w.handles["b"]?.bind fun b => (w.graph.formulaChange [(a, "true"), (b, "a + 1")]).1.toOption.bind fun change =>
        ({ w with graph := (w.graph.formulaChange [(a, "true"), (b, "a + 1")]).2 }.run 100 change.applyTasks).bind
          fun w' => (((w'.graph.read a).2.read b).2.node b).formula?) = some "2" := by
    decide +kernel
  obtain ⟨w, hw, hdone⟩ := Option.bind_eq_some_iff.mp hdone
  obtain ⟨a, ha, hdone⟩ := Option.bind_eq_some_iff.mp hdone
  obtain ⟨b, hb, hdone⟩ := Option.bind_eq_some_iff.mp hdone
  obtain ⟨change, hchange, hdone⟩ := Option.bind_eq_some_iff.mp hdone
  obtain ⟨w', hw', hdone⟩ := Option.bind_eq_some_iff.mp hdone
  exact ⟨w, a, b, change, _, w', hw, ha, hb, Prod.ext (toOption_eq_some.mp hchange) rfl, hw', hdone⟩

end Workspace

end FormulaGraph
