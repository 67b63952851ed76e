import FormulaGraph.Proofs.Cancelling

/-! Telling listeners is a walk. Each node that is clean when it is met turns dirty, and its own listeners are told
before the next one; the tasks that are left stand for the calls that have not returned yet. -/

namespace FormulaGraph

open FormulaGraph.Graph

namespace Graph

variable {g : Graph} {n m : NodeId} {key : Nat} {rest : List Listener}

/-- What is left to be met at most: each clean node, and whoever listens to it. -/
def unvisited (g : Graph) : Nat :=
  total (g.cells.toList.map fun c => if c.dirty then 0 else c.listeners.slots.size + 1)

/-- A graph after a walk, and the callbacks that have been called on the way, the first one first. -/
structure Walk (g : Graph) where
  graph : Graph
  called : List Nat
  unvisited_le : graph.unvisited ≤ g.unvisited

theorem unvisited_touch_lt (hlive : g.isLive n = true) (hclean : (g.cell n).dirty = false) :
    (g.touch n).unvisited + (g.cell n).listeners.slots.size < g.unvisited := by
  have hn := lt_size_of_owners_pos (of_decide_eq_true hlive)
  have hx : g.cells.toList[n]? = some (g.cell n) := by simp [cell, hn]
  have hlt := total_map_modify_lt (fun c : Cell => if c.dirty then 0 else c.listeners.slots.size + 1)
    (fun c => { c with dirty := true }) (k := (g.cell n).listeners.slots.size) hx (by simp [hclean])
  rw [Nat.add_comm]
  simpa only [unvisited, touch, modifyCell, Array.toList_modify] using hlt

theorem length_listening_le : (g.listening n).length ≤ (g.cell n).listeners.slots.size := by
  refine Nat.le_trans (List.length_filter_le _ _) ?_
  exact Nat.le_trans (List.length_filterMap_le _ _) (Nat.le_of_eq Array.length_toList)

/-- Tells the listeners one after the other. A live node that is clean turns dirty, and whoever listens to it is told
before the next one. -/
def walk (g : Graph) (listeners : List Listener) : Walk g :=
  match listeners with
  | [] => ⟨g, [], Nat.le_refl _⟩
  | .callback key :: rest =>
    let next := g.walk rest
    ⟨next.graph, key :: next.called, next.unvisited_le⟩
  | .node n :: rest =>
    if h : (g.isLive n && !(g.cell n).dirty) = true then
      have hlt : (g.touch n).unvisited + (g.cell n).listeners.slots.size < g.unvisited := by
        simp only [Bool.and_eq_true, Bool.not_eq_true'] at h
        exact unvisited_touch_lt h.1 h.2
      match (g.touch n).walk ((g.touch n).listening n) with
      | ⟨inner, first, hinner⟩ =>
        match inner.walk rest with
        | ⟨next, second, hnext⟩ => ⟨next, first ++ second, by omega⟩
    else g.walk rest
termination_by g.unvisited + listeners.length
decreasing_by
  · simp
  · have hle := length_listening_le (g := g.touch n) (n := n)
    rw [listeners_touch] at hle
    simp only [List.length_cons]
    omega
  · simp only [List.length_cons]
    omega
  · simp

theorem graph_walk_callback (g : Graph) : (g.walk (.callback key :: rest)).graph = (g.walk rest).graph := by
  rw [walk]

theorem called_walk_callback (g : Graph) :
    (g.walk (.callback key :: rest)).called = key :: (g.walk rest).called := by
  rw [walk]

theorem graph_walk_node (h : (g.isLive n && !(g.cell n).dirty) = true) :
    (g.walk (.node n :: rest)).graph = (((g.touch n).walk ((g.touch n).listening n)).graph.walk rest).graph := by
  rw [walk, dif_pos h]

theorem called_walk_node (h : (g.isLive n && !(g.cell n).dirty) = true) :
    (g.walk (.node n :: rest)).called = ((g.touch n).walk ((g.touch n).listening n)).called ++
      (((g.touch n).walk ((g.touch n).listening n)).graph.walk rest).called := by
  rw [walk, dif_pos h]

theorem walk_node_of_not (h : ¬ (g.isLive n && !(g.cell n).dirty) = true) :
    g.walk (.node n :: rest) = g.walk rest := by
  rw [walk, dif_neg h]

end Graph

namespace Workspace

variable {w w' w₁ : Workspace} {task : Task} {tasks first second : List Task} {keys keys' : List Nat} {limit : Nat}

theorem called_mono (h : w.run limit tasks = some w') {limit' : Nat} (hle : limit ≤ limit') :
    called limit' tasks w = called limit tasks w := by
  induction limit generalizing w tasks limit' with
  | zero =>
    cases tasks with
    | nil => cases limit' <;> rfl
    | cons task tasks => cases h
  | succ limit ih =>
    obtain ⟨limit', rfl⟩ := Nat.exists_eq_add_of_le' (Nat.lt_of_lt_of_le (Nat.succ_pos limit) hle)
    cases tasks with
    | nil => rfl
    | cons task tasks =>
      exact congrArg (task.key?.toList ++ ·) (ih (w := (w.advance task).2) h (Nat.le_of_succ_le_succ hle))

/-- The tasks, and all that they leave to do, come to an end, and these callbacks are called, the first one first. -/
def Calls (w : Workspace) (tasks : List Task) (keys : List Nat) (w' : Workspace) : Prop :=
  ∃ limit, w.run limit tasks = some w' ∧ called limit tasks w = keys

theorem Calls.nil (w : Workspace) : w.Calls [] [] w := ⟨0, rfl, rfl⟩

theorem Calls.step (h : (w.advance task).2.Calls ((w.advance task).1 ++ tasks) keys w') :
    w.Calls (task :: tasks) (task.key?.toList ++ keys) w' := by
  obtain ⟨limit, hrun, rfl⟩ := h
  exact ⟨limit + 1, hrun, rfl⟩

theorem Calls.step_of_none (hkey : task.key? = none)
    (h : (w.advance task).2.Calls ((w.advance task).1 ++ tasks) keys w') : w.Calls (task :: tasks) keys w' := by
  have hstep := h.step
  rwa [hkey, Option.toList_none, List.nil_append] at hstep

/-- By the number of tasks that are done. -/
theorem Calls.append (h : w.Calls first keys w₁) (h' : w₁.Calls second keys' w') :
    w.Calls (first ++ second) (keys ++ keys') w' := by
  obtain ⟨limit, hrun, rfl⟩ := h
  induction limit generalizing w first with
  | zero =>
    cases first with
    | nil =>
      cases hrun
      exact h'
    | cons task first => cases hrun
  | succ limit ih =>
    cases first with
    | nil =>
      cases hrun
      exact h'
    | cons task first =>
      have hrest := ih (w := (w.advance task).2) hrun
      rw [List.append_assoc] at hrest
      rw [called, List.append_assoc]
      exact hrest.step

/-- Wherever it is run, the script leaves the graph alone and calls nobody. -/
def Detached (script : List Step) : Prop :=
  ∀ w : Workspace, ∃ w', w.Calls (script.map .perform) [] w' ∧ w.Bides w'

theorem calls_asks {step : Step} (h : step.asks = true) (w : Workspace) :
    ∃ w', w.Calls [.perform step] [] w' ∧ w.Bides w' := by
  rcases advance_asks h w with ⟨answer, hnext⟩ | hnext
  · refine ⟨w.note (.answered answer), .step_of_none rfl ?_, rfl, rfl, rfl⟩
    rw [hnext]
    exact .step_of_none rfl (.nil _)
  · refine ⟨w.note (.answered (.history (w.history.stateWith true))), .step_of_none rfl ?_, rfl, rfl, rfl⟩
    rw [hnext]
    exact .step_of_none rfl (.nil _)

theorem detached_of_asks {script : List Step} (h : ∀ step ∈ script, step.asks = true) : Detached script := by
  intro w
  induction script generalizing w with
  | nil => exact ⟨w, .nil w, .refl w⟩
  | cons step script ih =>
    obtain ⟨w₁, hfirst, hbides⟩ := calls_asks (h step List.mem_cons_self) w
    obtain ⟨w', hrest, hbides'⟩ := ih (fun step hstep => h step (List.mem_cons_of_mem _ hstep)) w₁
    exact ⟨w', hfirst.append hrest, hbides.trans hbides'⟩

/-- The scripts of these callbacks leave the graph alone. -/
def AllDetached (w : Workspace) (keys : List Nat) : Prop :=
  ∀ key ∈ keys, ∀ watch, w.watches[key]? = some watch → Detached watch.script

theorem AllDetached.congr (h : w.AllDetached keys) (hwatches : w'.watches = w.watches) : w'.AllDetached keys := by
  intro key hkey watch hwatch
  exact h key hkey watch (hwatches ▸ hwatch)

theorem AllDetached.of_append (h : w.AllDetached (keys ++ keys')) : w.AllDetached keys ∧ w.AllDetached keys' :=
  ⟨fun key hkey => h key (List.mem_append_left _ hkey), fun key hkey => h key (List.mem_append_right _ hkey)⟩

/-- These callbacks have been called, and the watches are the same. -/
structure Fires (w w' : Workspace) (keys : List Nat) : Prop where
  watches : w'.watches = w.watches
  fired : w'.fired = (keys.filterMap w.callback?).reverse ++ w.fired

theorem Fires.trans (h : w.Fires w₁ keys) (h' : w₁.Fires w' keys') : w.Fires w' (keys ++ keys') := by
  have hcallback : w₁.callback? = w.callback? := by
    funext key
    rw [callback?, callback?, h.watches]
  refine ⟨h'.watches.trans h.watches, ?_⟩
  rw [h'.fired, h.fired, hcallback, List.filterMap_append, List.reverse_append, List.append_assoc]

/-- A callback without a watch does nothing. -/
theorem exists_calls_callback {key : Nat} (h : w.AllDetached [key]) :
    ∃ w', w.Calls [.tell (.callback key)] [key] w' ∧ w'.graph = w.graph ∧ w.Fires w' [key] := by
  cases hwatch : w.watches[key]? with
  | none =>
    refine ⟨w, .step ?_, rfl, rfl, ?_⟩
    · simp only [advance, tell, hwatch]
      exact .nil w
    · simp [callback?, hwatch]
  | some watch =>
    obtain ⟨w', hcalls, hbides⟩ := h key (List.mem_singleton_self key) watch hwatch (w.note (.fired watch.id))
    refine ⟨w', .step ?_, hbides.graph, hbides.watches, ?_⟩
    · simp only [advance, tell, hwatch, List.append_nil]
      exact hcalls
    · rw [hbides.fired]
      simp [callback?, hwatch, fired, note, Event.fired?]

/-- By the recursion of the walk: all that is below a node is done before the rest of the listeners are told. -/
theorem exists_walked (listeners : List Listener) (h : w.AllDetached (w.graph.walk listeners).called) :
    ∃ w', w.Calls (listeners.map .tell) (w.graph.walk listeners).called w' ∧
      w'.graph = (w.graph.walk listeners).graph ∧ w.Fires w' (w.graph.walk listeners).called := by
  generalize hg : w.graph = g at h ⊢
  induction g, listeners using Graph.walk.induct generalizing w with
  | case1 g =>
    rw [Graph.walk]
    exact ⟨w, .nil w, hg, rfl, rfl⟩
  | case2 g key rest ih =>
    rw [called_walk_callback] at h ⊢
    obtain ⟨hkey, hrest⟩ : w.AllDetached [key] ∧ w.AllDetached (g.walk rest).called := AllDetached.of_append h
    obtain ⟨w₁, hcalls, hgraph, hfires⟩ := exists_calls_callback hkey
    obtain ⟨w', hcalls', hgraph', hfires'⟩ := ih (hgraph.trans hg) (hrest.congr hfires.watches)
    exact ⟨w', hcalls.append hcalls', hgraph'.trans (graph_walk_callback g).symm, hfires.trans hfires'⟩
  | case3 g n rest hclean _ inner first _ hinner next second _ hnext ihinner ihnext =>
    subst hg
    rw [hinner] at ihinner
    rw [called_walk_node hclean, hinner] at h ⊢
    rw [graph_walk_node hclean, hinner]
    obtain ⟨hfirst, hsecond⟩ := h.of_append
    obtain ⟨w₁, hcalls, hgraph, hfires⟩ := ihinner (w := { w with graph := w.graph.touch n }) rfl hfirst
    obtain ⟨w', hcalls', hgraph', hfires'⟩ := ihnext hgraph (hsecond.congr hfires.watches)
    have hfires₁ : w.Fires w₁ first := ⟨hfires.watches, hfires.fired⟩
    refine ⟨w', .step_of_none rfl ?_, hgraph', hfires₁.trans hfires'⟩
    rw [advance, tell, Graph.tell, if_pos hclean]
    exact hcalls.append hcalls'
  | case4 g n rest hclean ih =>
    subst hg
    rw [walk_node_of_not hclean] at h ⊢
    obtain ⟨w', hcalls, hrest⟩ := ih rfl h
    refine ⟨w', .step_of_none rfl ?_, hrest⟩
    rw [advance, tell, Graph.tell, if_neg hclean]
    exact hcalls

/-- In every workspace, whatever is dirty, gone or listed twice in it: if the callbacks that a walk from the node
meets leave the graph alone, telling whoever listens to the node comes to an end, the same nodes are dirty then as
after the walk, and the same callbacks have been called in the same order. -/
theorem walked_of_tells (n : NodeId) (h : w.AllDetached (w.graph.walk (w.graph.listening n)).called) :
    ∃ (w' : Workspace) (bound : Nat),
      (∀ limit, bound ≤ limit → w.run limit ((w.graph.listening n).map .tell) = some w' ∧
        called limit ((w.graph.listening n).map .tell) w = (w.graph.walk (w.graph.listening n)).called) ∧
      w'.graph = (w.graph.walk (w.graph.listening n)).graph ∧
      w'.fired = ((w.graph.walk (w.graph.listening n)).called.filterMap w.callback?).reverse ++ w.fired := by
  obtain ⟨w', ⟨bound, hrun, hcalled⟩, hgraph, hfires⟩ := exists_walked (w.graph.listening n) h
  refine ⟨w', bound, fun limit hle => ⟨run_mono hrun hle, ?_⟩, hgraph, hfires.fired⟩
  rw [called_mono hrun hle, hcalled]

/-- "d" is above "a" in three ways, and two places with "a" are free again. -/
def meetingSteps : List Step :=
  [.record "r" none, .input "r" "a" "a" (.bool true), .watch "v" "a" [], .expression "r" "b" "b" "!a || a",
    .expression "r" "c" "c" "a", .expression "r" "d" "d" "b && c && a", .expression "r" "e" "e" "a", .read "d",
    .read "e", .watch "x" "d" [.states], .watch "y" "d" [], .watch "z" "b" [.depends "d" "a"], .unwatch "v",
    .remove "r" "e", .dropNode "e"]

theorem walked_of_meeting :
    ∃ w n, Workspace.run 100 {} (meetingSteps.map .perform) = some w ∧ w.handles["a"]? = some n ∧
      w.AllDetached (w.graph.walk (w.graph.listening n)).called ∧
      ∃ w' bound, w.run bound ((w.graph.listening n).map .tell) = some w' ∧
        called bound ((w.graph.listening n).map .tell) w = [1, 2, 3] ∧ w'.fired = ["z", "y", "x"] ++ w.fired := by
  have hread : ((Workspace.run 100 {} (meetingSteps.map .perform)).bind fun w => w.handles["a"]?.map fun n =>
      (w.watches.all (fun watch => watch.script.all Step.asks), (w.graph.walk (w.graph.listening n)).called,
        w.watches.toList.map Watch.id)) = some (true, [1, 2, 3], ["v", "x", "y", "z"]) := by
    decide +kernel
  obtain ⟨w, hw, hread⟩ := Option.bind_eq_some_iff.mp hread
  obtain ⟨n, hn, hread⟩ := Option.map_eq_some_iff.mp hread
  simp only [Prod.mk.injEq] at hread
  obtain ⟨hall, hcalled, hids⟩ := hread
  have hdetached : w.AllDetached (w.graph.walk (w.graph.listening n)).called := by
    intro key _ watch hwatch
    have hscript := Array.all_eq_true_iff_forall_mem.mp hall watch (Array.mem_of_getElem? hwatch)
    exact detached_of_asks (List.all_eq_true.mp hscript)
  obtain ⟨w', bound, hdone, -, hfired⟩ := walked_of_tells n hdetached
  obtain ⟨hrun, hkeys⟩ := hdone bound (Nat.le_refl _)
  have hcallback : ∀ key, w.callback? key = ["v", "x", "y", "z"][key]? := by
    intro key
    rw [callback?, ← Array.getElem?_toList, ← List.getElem?_map, hids]
  refine ⟨w, n, hw, hn, hdetached, w', bound, hrun, hkeys.trans hcalled, ?_⟩
  rw [hfired, hcalled]
  simp [hcallback]

end Workspace

end FormulaGraph
