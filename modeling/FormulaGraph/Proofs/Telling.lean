import FormulaGraph.Proofs.Attending

/-! Telling listeners. Each clean node that is told turns dirty once, and the callbacks with it are called then;
a node that is dirty already tells nobody, so that the walk ends. -/

namespace FormulaGraph

open FormulaGraph.Graph

namespace Workspace

variable {w w' w₁ : Workspace} {tasks first second : List Task} {limit limit' : Nat}

theorem run_mono (h : w.run limit tasks = some w') (hle : limit ≤ limit') : w.run limit' tasks = some w' := by
  induction limit generalizing w tasks limit' with
  | zero =>
    cases tasks with
    | nil =>
      cases h
      cases limit' <;> rfl
    | cons task tasks => cases h
  | succ limit ih =>
    obtain ⟨limit', rfl⟩ := Nat.exists_eq_add_of_le' (Nat.lt_of_lt_of_le (Nat.succ_pos limit) hle)
    cases tasks with
    | nil => exact h
    | cons task tasks => exact ih (w := (w.advance task).2) h (Nat.le_of_succ_le_succ hle)

/-- The tasks, and all that they leave to do, come to an end. -/
def Does (w : Workspace) (tasks : List Task) (w' : Workspace) : Prop := ∃ limit, w.run limit tasks = some w'

theorem Does.nil (w : Workspace) : w.Does [] w := ⟨0, rfl⟩

theorem Does.step {task : Task} (h : (w.advance task).2.Does ((w.advance task).1 ++ tasks) w') :
    w.Does (task :: tasks) w' := by
  obtain ⟨limit, h⟩ := h
  exact ⟨limit + 1, h⟩

theorem Does.append (h : w.Does first w₁) (h' : w₁.Does second w') : w.Does (first ++ second) w' := by
  obtain ⟨limit, h⟩ := h
  induction limit generalizing w first with
  | zero =>
    cases first with
    | nil =>
      cases h
      exact h'
    | cons task first => cases h
  | succ limit ih =>
    cases first with
    | nil =>
      cases h
      exact h'
    | cons task first =>
      rw [List.cons_append]
      refine .step ?_
      rw [← List.append_assoc]
      exact ih h

end Workspace

def Event.fired? : Event → Option String
  | .fired id => some id
  | _ => none

namespace Workspace

variable {w w' w₁ : Workspace}

/-- The callbacks that have been called, the last one first. -/
def fired (w : Workspace) : List String := w.log.filterMap Event.fired?

/-- What a callback is called. -/
def callback? (w : Workspace) (key : Nat) : Option String := w.watches[key]?.map Watch.id

/-- The graph and the watches are left alone, and no callback is called. -/
structure Bides (w w' : Workspace) : Prop where
  graph : w'.graph = w.graph
  watches : w'.watches = w.watches
  fired : w'.fired = w.fired

theorem Bides.refl (w : Workspace) : w.Bides w := ⟨rfl, rfl, rfl⟩

theorem Bides.trans (h : w.Bides w₁) (h' : w₁.Bides w') : w.Bides w' :=
  ⟨h'.graph.trans h.graph, h'.watches.trans h.watches, h'.fired.trans h.fired⟩

/-- Wherever it is run, the script leaves the graph alone. -/
def Unobtrusive (script : List Step) : Prop := ∀ w : Workspace, ∃ w', w.Does (script.map .perform) w' ∧ w.Bides w'

end Workspace

/-- Steps that only ask for what there is. -/
def Step.asks : Step → Bool
  | .get .. | .find .. | .resolve .. | .names _ | .listing _ | .state _ | .states | .depends .. | .same ..
  | .ticket _ | .history => true
  | _ => false

namespace Workspace

variable {w w' : Workspace}

theorem advance_asks {step : Step} (h : step.asks = true) (w : Workspace) :
    (∃ answer, w.advance (.perform step) = ([.reply answer], w)) ∨
      w.advance (.perform step) = ([.replyHistory true], w) := by
  cases step with
  | get scope | find scope | resolve scope | names scope | listing scope =>
    rw [advance, perform]
    cases w.recordNamed scope with
    | error id => exact .inl ⟨_, rfl⟩
    | ok r => exact .inl ⟨_, rfl⟩
  | state id =>
    rw [advance, perform]
    cases w.nodeNamed id with
    | error id => exact .inl ⟨_, rfl⟩
    | ok n => exact .inl ⟨_, rfl⟩
  | depends a b | same a b =>
    rw [advance, perform]
    cases w.nodeNamed a with
    | error id => exact .inl ⟨_, rfl⟩
    | ok n =>
      cases w.nodeNamed b with
      | error id => exact .inl ⟨_, rfl⟩
      | ok m => exact .inl ⟨_, rfl⟩
  | states | ticket => exact .inl ⟨_, rfl⟩
  | history => exact .inr rfl
  | _ => cases h

theorem does_asks {step : Step} (h : step.asks = true) (w : Workspace) :
    ∃ w', w.Does [.perform step] w' ∧ w.Bides w' := by
  rcases advance_asks h w with ⟨answer, hnext⟩ | hnext
  · refine ⟨w.note (.answered answer), .step ?_, rfl, rfl, rfl⟩
    rw [hnext]
    exact .step (.nil _)
  · refine ⟨w.note (.answered (.history (w.history.stateWith true))), .step ?_, rfl, rfl, rfl⟩
    rw [hnext]
    exact .step (.nil _)

/-- A script that only asks leaves the graph alone. -/
theorem unobtrusive_of_asks {script : List Step} (h : ∀ step ∈ script, step.asks = true) :
    Unobtrusive script := by
  intro w
  induction script generalizing w with
  | nil => exact ⟨w, .nil w, .refl w⟩
  | cons step script ih =>
    obtain ⟨w₁, hfirst, hbides⟩ := does_asks (h step List.mem_cons_self) w
    obtain ⟨w', hrest, hbides'⟩ := ih (fun step hstep => h step (List.mem_cons_of_mem _ hstep)) w₁
    exact ⟨w', hfirst.append hrest, hbides.trans hbides'⟩

end Workspace

namespace Graph

variable {g : Graph} {n m : NodeId}

/-- Makes all these nodes dirty. -/
def touchAll (g : Graph) (nodes : List NodeId) : Graph := nodes.foldl touch g

theorem cell_touchAll (g : Graph) (nodes : List NodeId) (m : NodeId) :
    (g.touchAll nodes).cell m =
      if m ∈ nodes ∧ m < g.cells.size then { g.cell m with dirty := true } else g.cell m := by
  induction nodes generalizing g with
  | nil => simp [touchAll]
  | cons n nodes ih =>
    have hsize : (g.touch n).cells.size = g.cells.size := size_modifyCell
    have hcell : (g.touch n).cell m = if m = n ∧ n < g.cells.size then { g.cell n with dirty := true } else g.cell m :=
      cell_modifyCell
    rw [touchAll, List.foldl_cons, ← touchAll, ih, hsize, hcell]
    by_cases hm : m < g.cells.size
    · by_cases hmn : m = n
      · subst hmn
        simp [hm]
      · simp [hm, hmn]
    · have hne : ¬ (m = n ∧ n < g.cells.size) := fun h => hm (h.1 ▸ h.2)
      simp [hm, hne]

/-- How many nodes are clean. -/
def clean (g : Graph) : Nat := total (g.cells.toList.map fun c => if c.dirty then 0 else 1)

theorem clean_touch_lt (hn : n < g.cells.size) (hclean : (g.cell n).dirty = false) :
    (g.touch n).clean < g.clean := by
  have hx : g.cells.toList[n]? = some (g.cell n) := by simp [cell, hn]
  have := total_map_modify_lt (fun c : Cell => if c.dirty then 0 else 1) (fun c => { c with dirty := true }) (k := 0)
    hx (by simp [hclean])
  rw [Nat.zero_add] at this
  simpa only [clean, touch, modifyCell, Array.toList_modify] using this

theorem isLive_touch : (g.touch n).isLive m = g.isLive m := by
  rw [isLive, isLive, touch, cell_modifyCell_congr Cell.owners (by exact fun _ => rfl)]

theorem listeners_touch : ((g.touch n).cell m).listeners = (g.cell m).listeners :=
  cell_modifyCell_congr Cell.listeners (by exact fun _ => rfl) m

theorem callbacks_touch : (g.touch n).callbacks = g.callbacks := by
  funext m
  rw [callbacks, callbacks, listeners_touch]

/-- All callbacks hear. -/
theorem filterMap_key?_listening : (g.listening n).filterMap Listener.key? = g.callbacks n := by
  rw [listening, List.filterMap_filter, callbacks]
  congr 1
  funext l
  cases l with
  | node m => split <;> rfl
  | callback key => rfl

end Graph

namespace Workspace

variable {w w' w₁ : Workspace} {D : NodeId → Prop} {l : Listener} {n : NodeId} {turned : List NodeId}
  {called : List Nat}

/-- What is asked of one that is told: a live node is in `D`, and a callback leaves the graph alone. -/
def Heeds (w : Workspace) (D : NodeId → Prop) : Listener → Prop
  | .node m => w.graph.isLive m = true → D m
  | .callback key => ∃ watch, w.watches[key]? = some watch ∧ Unobtrusive watch.script

theorem Heeds.congr (h : w.Heeds D l) (hlive : ∀ m, w'.graph.isLive m = w.graph.isLive m)
    (hwatches : w'.watches = w.watches) : w'.Heeds D l := by
  cases l with
  | node m => exact fun hm => h (hlive m ▸ hm)
  | callback key =>
    obtain ⟨watch, hwatch, hscript⟩ := h
    exact ⟨watch, hwatches ▸ hwatch, hscript⟩

/-- These nodes of `D` have turned dirty and these callbacks have been called, the last one first. -/
structure Spreads (D : NodeId → Prop) (w w' : Workspace) (turned : List NodeId) (called : List Nat) : Prop where
  graph : w'.graph = w.graph.touchAll turned
  watches : w'.watches = w.watches
  fired : w'.fired.map some = called.map w.callback? ++ w.fired.map some
  wasClean (m : NodeId) : m ∈ turned → D m ∧ w.graph.isLive m = true ∧ (w.graph.cell m).dirty = false
  nodup : turned.Nodup

theorem Spreads.refl (w : Workspace) : Spreads D w w [] [] :=
  ⟨rfl, rfl, rfl, fun _ hm => (List.not_mem_nil hm).elim, List.nodup_nil⟩

/-- A callback has been called, and its script has left the graph alone. -/
theorem Spreads.after_call {watch : Watch} {key : Nat} (h : Spreads D w₁ w' turned called)
    (hwatch : w.watches[key]? = some watch) (hbides : (w.note (.fired watch.id)).Bides w₁) :
    Spreads D w w' turned (called ++ [key]) := by
  have hgraph : w₁.graph = w.graph := hbides.graph
  have hwatches : w₁.watches = w.watches := hbides.watches
  refine ⟨hgraph ▸ h.graph, h.watches.trans hwatches, ?_, hgraph ▸ h.wasClean, h.nodup⟩
  have hcalled : w₁.callback? = w.callback? := by
    funext key
    rw [callback?, callback?, hwatches]
  have hfired : w₁.fired = watch.id :: w.fired := hbides.fired
  have hkey : w.callback? key = some watch.id := by
    rw [callback?, hwatch]
    rfl
  rw [h.fired, hcalled, hfired, List.map_append, List.append_assoc, List.map_cons, List.map_cons, hkey]
  rfl

/-- A clean node has turned dirty before others. -/
theorem Spreads.after_touch (h : Spreads D { w with graph := w.graph.touch n } w' turned called) (hD : D n)
    (hlive : w.graph.isLive n = true) (hclean : (w.graph.cell n).dirty = false) :
    Spreads D w w' (n :: turned) called := by
  have hlt := lt_size_of_owners_pos (of_decide_eq_true hlive)
  have hself : ((w.graph.touch n).cell n).dirty = true := by rw [touch, cell_modifyCell_self hlt]
  have hne : ∀ m ∈ turned, m ≠ n := fun m hm hmn => by
    have := (h.wasClean m hm).2.2
    rw [hmn, hself] at this
    cases this
  refine ⟨h.graph, h.watches, h.fired, fun m hm => ?_, List.nodup_cons.mpr ⟨fun hn => hne n hn rfl, h.nodup⟩⟩
  rcases List.mem_cons.mp hm with rfl | hm
  · exact ⟨hD, hlive, hclean⟩
  · obtain ⟨hDm, hlivem, hcleanm⟩ := h.wasClean m hm
    refine ⟨hDm, isLive_touch.symm.trans hlivem, ?_⟩
    rwa [touch, cell_modifyCell_of_ne (hne m hm)] at hcleanm

/-- Telling listeners comes to an end. By induction on how many nodes are clean, and with them on how many
listeners are left. -/
theorem exists_spreads (listeners : List Listener)
    (hD : ∀ n l, D n → l ∈ (w.graph.cell n).listeners.listeners → w.Heeds D l)
    (hlisteners : ∀ l ∈ listeners, w.Heeds D l) :
    ∃ w' turned called, w.Does (listeners.map .tell) w' ∧ Spreads D w w' turned called ∧
      called.Perm (listeners.filterMap Listener.key? ++ turned.flatMap w.graph.callbacks) := by
  generalize hk : w.graph.clean = k
  induction k using Nat.strongRecOn generalizing w listeners with
  | ind k ih =>
    induction listeners generalizing w with
    | nil => exact ⟨w, [], [], .nil w, .refl w, .refl _⟩
    | cons l rest ihrest =>
      have hrest := fun l hl => hlisteners l (List.mem_cons_of_mem _ hl)
      have hl := hlisteners l List.mem_cons_self
      cases l with
      | callback key =>
        obtain ⟨watch, hwatch, hscript⟩ := hl
        obtain ⟨w₁, hdone, hbides⟩ := hscript (w.note (.fired watch.id))
        have hgraph : w₁.graph = w.graph := hbides.graph
        have hheeds : ∀ l, w.Heeds D l → w₁.Heeds D l := fun l hl =>
          hl.congr (fun m => by rw [hgraph]) hbides.watches
        obtain ⟨w', turned, called, hdoes, hspreads, hperm⟩ := ihrest (w := w₁)
          (fun n l hn hl => hheeds l (hD n l hn (hgraph ▸ hl))) (fun l hl => hheeds l (hrest l hl)) (hgraph ▸ hk)
        refine ⟨w', turned, called ++ [key], .step ?_, hspreads.after_call hwatch hbides, ?_⟩
        · rw [advance, tell, hwatch]
          exact hdone.append hdoes
        · rw [hgraph] at hperm
          exact List.perm_append_comm.trans (hperm.cons key)
      | node m =>
        by_cases hm : (w.graph.isLive m && !(w.graph.cell m).dirty) = true
        · obtain ⟨hlive, hdirty⟩ := Bool.and_eq_true_iff.mp hm
          have hclean : (w.graph.cell m).dirty = false := by simpa using hdirty
          have hlt := lt_size_of_owners_pos (of_decide_eq_true hlive)
          have hheeds : ∀ l, w.Heeds D l → Heeds { w with graph := w.graph.touch m } D l := fun l hl =>
            hl.congr (fun m => isLive_touch) rfl
          have hfirst : ∀ l ∈ (w.graph.touch m).listening m ++ rest,
              Heeds { w with graph := w.graph.touch m } D l := fun l hmem => by
            rcases List.mem_append.mp hmem with hmem | hmem
            · have hmem := (List.mem_filter.mp hmem).1
              rw [listeners_touch] at hmem
              exact hheeds l (hD m l (hl hlive) hmem)
            · exact hheeds l (hrest l hmem)
          obtain ⟨w', turned, called, hdoes, hspreads, hperm⟩ := ih _ (hk ▸ clean_touch_lt hlt hclean)
            (w := { w with graph := w.graph.touch m }) _
            (fun n l hn hmem => hheeds l (hD n l hn (listeners_touch ▸ hmem))) hfirst rfl
          refine ⟨w', m :: turned, called, .step ?_, hspreads.after_touch (hl hlive) hlive hclean, ?_⟩
          · rw [advance, tell, Graph.tell, if_pos hm]
            rw [List.map_append] at hdoes
            exact hdoes
          · rw [List.filterMap_append, filterMap_key?_listening, callbacks_touch] at hperm
            rw [List.filterMap_cons_none rfl, List.flatMap_cons, ← List.append_assoc]
            exact hperm.trans (List.perm_append_comm.append_right _)
        · obtain ⟨w', turned, called, hdoes, hspreads, hperm⟩ := ihrest hD hrest hk
          refine ⟨w', turned, called, .step ?_, hspreads, hperm⟩
          rw [advance, tell, Graph.tell, if_neg hm]
          exact hdoes

end Workspace

end FormulaGraph
