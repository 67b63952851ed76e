import FormulaGraph.Proofs.Performing
import FormulaGraph.Workspace.Run

/-! Whatever a workspace is asked to do, what its nodes have kept is up to date when it is done. In between,
only nodes that are still to be told of a change may be behind. -/

namespace FormulaGraph

/-- Asks for what a node has kept. -/
def kept : Reader := fun n => do
  match (← getCell n).cache with
  | some value => return value
  | none => throw cycleError

/-- Every live clean node has the value that working it out from what it reads would give, and reads clean
nodes only. -/
def Graph.UpToDate (g : Graph) : Prop :=
  ∀ n, g.isLive n = true → (g.cell n).dirty = false →
    ∃ v, (g.cell n).cache = some v ∧ (∀ d ∈ g.dependencies n, (g.cell d).dirty = false) ∧
      (compute kept n).run.run g = (.ok v, g)

section

variable {g : Graph} {n : NodeId} {v : Value}

theorem run_kept (h : (g.cell n).cache = some v) : (kept n).run.run g = (.ok v, g) := by
  rw [kept, run_bind_except, run_getCell]
  dsimp only
  rw [h]
  rfl

theorem mapM_kept {nodes : List NodeId} {values : List Value}
    (h : nodes.mapM (fun m => (g.cell m).cache) = some values) :
    (nodes.mapM kept).run.run g = (.ok values, g) := by
  induction nodes generalizing values with
  | nil =>
    cases h
    rfl
  | cons m nodes ih =>
    rw [List.mapM_cons] at h
    obtain ⟨v, hv, h⟩ := Option.bind_eq_some_iff.mp h
    obtain ⟨rest, hrest, h⟩ := Option.bind_eq_some_iff.mp h
    cases h
    rw [List.mapM_cons, run_bind_except, run_kept hv]
    dsimp only
    rw [run_bind_except, ih hrest]
    rfl

theorem applyAt_of_toOption {operation : Operation} {operands : List Value} {offset : Nat}
    (h : (operation.apply operands).toOption = some v) : applyAt operation operands offset = .ok v := by
  rw [applyAt]
  cases ha : operation.apply operands with
  | ok value =>
    rw [ha] at h
    exact congrArg Except.ok (Option.some.inj h)
  | error fault =>
    rw [ha] at h
    cases h

theorem compute_kept (h : g.given? n = some v) : (compute kept n).run.run g = (.ok v, g) := by
  rw [run_compute]
  rw [Graph.given?] at h
  cases hn : g.node n with
  | constant value | input value =>
    rw [hn] at h
    cases h
    rfl
  | calculation operation operands offset tickets =>
    rw [hn] at h
    obtain ⟨values, hvalues, happly⟩ := Option.bind_eq_some_iff.mp h
    dsimp only
    rw [mapM_kept hvalues]
    dsimp only
    rw [applyAt_of_toOption happly]
  | expression scope source =>
    rw [hn] at h
    cases source with
    | built tree =>
      dsimp only
      rw [run_currentTree]
      dsimp only
      rw [run_kept h]
      rfl
    | unbuilt | edited => cases h

theorem Graph.Coherent.upToDate (h : g.Coherent []) : g.UpToDate := by
  intro n hn hclean
  rw [isLive, decide_eq_true_eq] at hn
  obtain ⟨hdeps, v, hv, hgiven⟩ := h.fresh n hn hclean List.not_mem_nil
  exact ⟨v, hv, hdeps, compute_kept hgiven⟩

end

namespace Workspace

variable {w : Workspace} {rest : List Hold} {told : List NodeId}

theorem holds_empty : ({} : Workspace).holds = [] := by
  simp [holds, allOf, History.changes]

theorem sound_empty : Sound {} [] [] := by
  have hcell : ∀ n, ({} : Graph).cell n = Cell.absent := fun n => by simp [Graph.cell]
  have htally : ∀ p, ({} : Graph).tally p = 0 := fun p => by simp [Graph.tally, total]
  have hlive : ∀ n, ¬ 0 < (({} : Graph).cell n).owners := fun n => by simp [hcell, Cell.absent]
  rw [Sound, holds_empty]
  exact
    { accounts :=
        { nodes := fun n => by simp [htally]
          records := fun r => by simp [htally]
          places := fun source slot => by simp [htally]
          registered := fun t ht => by simp [htally] at ht
          arenas := fun n => by
            rw [hcell]
            exact Arena.Ok.empty
          listens := fun n t hn _ => (hlive n hn).elim
          sources := fun n hn => (hlive n hn).elim }
      coherent := ⟨fun n hn => (hlive n hn).elim, fun n hn => (hlive n hn).elim⟩ }

/-- Tasks that give up nothing and tell nobody themselves. -/
theorem tasks_sound {tasks : List Task} (h : w.Sound rest told)
    (htasks : ∀ task ∈ tasks, task.holds = [] ∧ task.told = []) : Next.Sound rest told (tasks, w) := by
  have hholds : tasks.flatMap Task.holds = [] := List.flatMap_eq_nil_iff.mpr fun t ht => (htasks t ht).1
  have htold : tasks.flatMap Task.told = [] := List.flatMap_eq_nil_iff.mpr fun t ht => (htasks t ht).2
  rw [Next.Sound, hholds, htold]
  exact h

theorem editSilently_sound {outcome : Edited (List Listener × Graph)} (h : w.Sound rest told)
    (hedit : Graph.EditSound (rest ++ w.holds) told outcome) : Next.Sound rest told (w.editSilently outcome) := by
  rcases outcome with fault | ⟨listeners, g⟩
  · exact h
  · rw [editSilently, Next.Sound, holds_map_tell, told_map_tell]
    exact hedit

theorem tell_sound {listener : Listener} (h : w.Sound rest (toldBy [listener] ++ told)) :
    Next.Sound rest told (w.tell listener) := by
  cases listener with
  | node n =>
    rw [tell, Next.Sound, holds_map_tell, told_map_tell]
    exact Graph.tell_sound h
  | callback key =>
    rw [tell]
    cases w.watches[key]? with
    | none => exact h
    | some watch =>
      refine tasks_sound (w := w.note (.fired watch.id)) h fun task htask => ?_
      obtain ⟨step, -, rfl⟩ := List.mem_map.mp htask
      exact ⟨rfl, rfl⟩

theorem affect_sound {effect : Effect Change} (h : w.Sound (effect.discards.flatMap Change.holds ++ rest) told) :
    Next.Sound rest told (w.affect effect) := by
  cases effect with
  | discard change =>
    have hheld : w.graph.Sound (change.holds ++ (rest ++ w.holds)) told := by
      rw [Workspace.Sound, Effect.discards, List.flatMap_singleton, List.append_assoc] at h
      exact h
    exact Graph.Sound.release hheld
  | apply change =>
    cases change with
    | formulas edits =>
      refine tasks_sound h fun task htask => ?_
      obtain ⟨edit, -, rfl⟩ := List.mem_map.mp htask
      exact ⟨rfl, rfl⟩
    | value target old new =>
      refine tasks_sound h fun task htask => ?_
      rw [List.mem_singleton.mp htask]
      exact ⟨rfl, rfl⟩
    | marker name => exact h
  | revert change =>
    cases change with
    | formulas edits =>
      refine tasks_sound h fun task htask => ?_
      obtain ⟨edit, -, rfl⟩ := List.mem_map.mp htask
      exact ⟨rfl, rfl⟩
    | value target old new =>
      refine tasks_sound h fun task htask => ?_
      rw [List.mem_singleton.mp htask]
      exact ⟨rfl, rfl⟩
    | marker name => exact h

/-- A task keeps the graph sound with what it leaves to do. -/
theorem advance_sound (task : Task) (h : w.Sound (task.holds ++ rest) (task.told ++ told)) :
    Next.Sound rest told (w.advance task) := by
  cases task with
  | perform step =>
    have hperformed := perform_sound step h
    rw [advance]
    cases hp : w.perform step with
    | ok next =>
      rw [hp] at hperformed
      exact hperformed
    | error id => exact reply_sound h _
  | tell listener => exact tell_sound h
  | setInput n value => exact editSilently_sound h (Graph.setInput_sound h n value)
  | setFormula n text => exact editSilently_sound h (Graph.setFormula_sound h n text)
  | effect effect => exact affect_sound h
  | release holds =>
    rw [Workspace.Sound, List.append_assoc] at h
    exact Graph.Sound.release h
  | reply answer => exact h
  | replyHistory ok => exact h

/-- What holds of the tasks that are left and of the workspace in between holds when all is done. -/
theorem run_induction {P : List Task → Workspace → Prop}
    (hstep : ∀ task tasks w, P (task :: tasks) w → P ((w.advance task).1 ++ tasks) (w.advance task).2)
    {limit : Nat} {tasks : List Task} {w w' : Workspace} (h : P tasks w) (hr : w.run limit tasks = some w') :
    P [] w' := by
  induction limit generalizing w tasks with
  | zero =>
    cases tasks with
    | nil =>
      cases hr
      exact h
    | cons task tasks => cases hr
  | succ limit ih =>
    cases tasks with
    | nil =>
      cases hr
      exact h
    | cons task tasks =>
      rw [run] at hr
      exact ih (hstep task tasks w h) hr

theorem run_sound {limit : Nat} {tasks : List Task} {w' : Workspace}
    (h : w.Sound (tasks.flatMap Task.holds) (tasks.flatMap Task.told))
    (hr : w.run limit tasks = some w') : w'.Sound [] [] := by
  refine run_induction (P := fun tasks w => w.Sound (tasks.flatMap Task.holds) (tasks.flatMap Task.told))
    (fun task tasks w hw => ?_) h hr
  rw [List.flatMap_append, List.flatMap_append]
  exact advance_sound task hw

theorem run_append {limit : Nat} {first second : List Task} {w' : Workspace}
    (hr : w.run limit (first ++ second) = some w') :
    ∃ limit' w₁, w.run limit first = some w₁ ∧ w₁.run limit' second = some w' := by
  induction limit generalizing w first with
  | zero =>
    cases first with
    | nil => exact ⟨0, w, rfl, hr⟩
    | cons task first => cases hr
  | succ limit ih =>
    cases first with
    | nil => exact ⟨limit + 1, w, rfl, hr⟩
    | cons task first =>
      rw [List.cons_append, run] at hr
      dsimp only at hr
      rw [← List.append_assoc] at hr
      obtain ⟨limit', w₁, hfirst, hsecond⟩ := ih hr
      refine ⟨limit', w₁, ?_, hsecond⟩
      rw [run]
      exact hfirst

theorem holds_map_perform (steps : List Step) : (steps.map Task.perform).flatMap Task.holds = [] :=
  List.flatMap_eq_nil_iff.mpr fun t ht => by
    obtain ⟨step, -, rfl⟩ := List.mem_map.mp ht
    rfl

theorem told_map_perform (steps : List Step) : (steps.map Task.perform).flatMap Task.told = [] :=
  List.flatMap_eq_nil_iff.mpr fun t ht => by
    obtain ⟨step, -, rfl⟩ := List.mem_map.mp ht
    rfl

theorem sound_start (steps : List Step) : ({} : Workspace).Sound ((steps.map Task.perform).flatMap Task.holds)
    ((steps.map Task.perform).flatMap Task.told) := by
  rw [holds_map_perform, told_map_perform]
  exact sound_empty

theorem sound_of_run {limit : Nat} {steps : List Step} {w : Workspace}
    (h : Workspace.run limit {} (steps.map .perform) = some w) : w.Sound [] [] :=
  run_sound (sound_start steps) h

/-- Whatever has been done, and whatever scripts have been run on the way: everything kept is up to date, and
a node that is read then keeps the value that was read. -/
theorem upToDate_of_run {limit : Nat} {steps : List Step} {w : Workspace}
    (h : Workspace.run limit {} (steps.map .perform) = some w) :
    w.graph.UpToDate ∧ ∀ (id : String) n v g, w.handles[id]? = some n → w.graph.read n = (.ok v, g) →
      g.UpToDate ∧ g.isLive n = true ∧ (g.cell n).dirty = false ∧ (g.cell n).cache = some v := by
  have hsound : w.Sound [] [] := by
    refine run_sound ?_ h
    rw [holds_map_perform, told_map_perform]
    exact sound_empty
  refine ⟨hsound.coherent.upToDate, fun id n v g hn hr => ?_⟩
  have hheld : .node n ∈ [] ++ w.holds :=
    List.mem_append_right _ (List.mem_append_left _ (mem_allOf hn (List.mem_singleton_self _)))
  obtain ⟨hread, -, hvalue⟩ := readNode_reads hsound (.outside hheld)
  rw [Graph.read] at hr
  rw [hr] at hread hvalue
  exact ⟨hread.coherent.upToDate, decide_eq_true (hread.accounts.node_live hheld), hvalue v rfl⟩

/-- A watch that sets another input and reads in the middle of an edit. -/
theorem upToDate_after_watch :
    ∃ w n v g, Workspace.run 100 {} ([.record "r" none, .input "r" "a" "a" (.bool true),
        .input "r" "b" "b" (.bool false), .expression "r" "e" "e" "!a && b", .read "e",
        .watch "w" "e" [.set "b" (.bool true), .read "e"], .set "a" (.bool false)].map .perform) = some w ∧
      w.handles["e"]? = some n ∧ w.graph.read n = (.ok v, g) ∧ v.asBool? = some true ∧ w.graph.UpToDate ∧
        g.UpToDate ∧ (g.cell n).dirty = false ∧ (g.cell n).cache = some v := by
  have hread : ((Workspace.run 100 {} ([.record "r" none, .input "r" "a" "a" (.bool true),
      .input "r" "b" "b" (.bool false), .expression "r" "e" "e" "!a && b", .read "e",
      .watch "w" "e" [.set "b" (.bool true), .read "e"], .set "a" (.bool false)].map .perform)).bind fun w =>
        w.handles["e"]?.bind fun n => (w.graph.read n).1.toOption.bind Value.asBool?) = some true := by
    decide +kernel
  obtain ⟨w, hw, hread⟩ := Option.bind_eq_some_iff.mp hread
  obtain ⟨n, hn, hread⟩ := Option.bind_eq_some_iff.mp hread
  obtain ⟨v, hv, hbool⟩ := Option.bind_eq_some_iff.mp hread
  have hg : w.graph.read n = (.ok v, (w.graph.read n).2) := by
    rcases hr : w.graph.read n with ⟨e | v', g⟩
    · rw [hr] at hv
      cases hv
    · rw [hr] at hv
      cases hv
      rfl
  obtain ⟨hw', hlater⟩ := upToDate_of_run hw
  obtain ⟨hg', -, hclean, hcache⟩ := hlater "e" n v _ hn hg
  exact ⟨w, n, v, _, hw, hn, hg, hbool, hw', hg', hclean, hcache⟩

end Workspace

end FormulaGraph
