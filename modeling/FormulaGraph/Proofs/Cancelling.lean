import FormulaGraph.Proofs.Enrolling
import FormulaGraph.Proofs.Telling

/-! Giving up a watch. Only who has a place is set down to be called, so that a callback whose ticket is gone is
called by those alone who were on the way to it already. -/

namespace FormulaGraph

open FormulaGraph.Graph

/-- The callback that is called with it. -/
def Task.key? : Task → Option Nat
  | .tell listener => listener.key?
  | _ => none

namespace Graph

variable {g g' : Graph} {n : NodeId} {listeners : List Listener} {key : Nat} {node : Node}

theorem callbacks_setNode (m : NodeId) : (g.modifyCell n fun c => { c with node }).callbacks m = g.callbacks m := by
  rw [callbacks, cell_modifyCell_congr Cell.listeners (by exact fun _ => rfl), callbacks]

theorem filterMap_key?_dirtied : (g.dirtied n).1.filterMap Listener.key? = g.callbacks n := by
  rw [dirtied, filterMap_key?_listening, callbacks_touch]

/-- Only the current ticket for a place is for whoever has it. -/
theorem ticket_eq {t t' : Ticket} {l l' : Listener} (h : g.Registered t l) (h' : g.Registered t' l')
    (hsource : t.source = t'.source) (hslot : t.slot = t'.slot) : t = t' := by
  obtain ⟨source, slot, generation⟩ := t
  obtain ⟨source', slot', generation'⟩ := t'
  cases hsource
  cases hslot
  cases h.symm.trans h'
  rfl

/-- The callbacks among them have places. -/
def Placed (g : Graph) (listeners : List Listener) : Prop :=
  ∀ key ∈ listeners.filterMap Listener.key?, ∃ t, g.Registered t (.callback key)

theorem placed_nil : g.Placed [] := fun _ hkey => by cases hkey

theorem placed_of_callbacks (h : listeners.filterMap Listener.key? = g.callbacks n) : g.Placed listeners :=
  fun key hkey => by
    rw [h] at hkey
    obtain ⟨i, generation, ht⟩ := mem_callbacks.mp hkey
    exact ⟨_, ht⟩

theorem placed_tell : g.Placed (g.tell n).1 := by
  rw [tell]
  split
  · exact placed_of_callbacks filterMap_key?_dirtied
  · exact placed_nil

theorem placed_setInput {value : Value} (h : g.setInput n value = .ok (listeners, g')) : g.Placed listeners := by
  rw [setInput] at h
  split at h
  · split at h
    · cases h
      exact placed_nil
    · cases h
      exact placed_of_callbacks (filterMap_key?_dirtied.trans (callbacks_setNode n))
  · cases h

theorem placed_setFormula {text : String} (h : g.setFormula n text = .ok (listeners, g')) : g.Placed listeners := by
  rw [setFormula] at h
  split at h
  · split at h
    · cases h
      exact placed_nil
    · cases h
      exact placed_of_callbacks (filterMap_key?_dirtied.trans (callbacks_setNode n))
  · cases h

end Graph

/-- The callbacks that are set down to be called have places. -/
def Next.Places (g : Graph) (next : Next) : Prop :=
  ∀ key ∈ next.1.filterMap Task.key?, ∃ t, g.Registered t (.callback key)

def KnownPlaces (g : Graph) : Known Next → Prop
  | .ok next => Next.Places g next
  | .error _ => True

theorem KnownPlaces.bind {g : Graph} {α : Type} {x : Known α} {f : α → Known Next}
    (h : ∀ a, x = .ok a → KnownPlaces g (f a)) : KnownPlaces g (x >>= f) := by
  cases x with
  | ok a => exact h a rfl
  | error id => trivial

theorem filterMap_key?_tell (listeners : List Listener) :
    (listeners.map Task.tell).filterMap Task.key? = listeners.filterMap Listener.key? :=
  List.filterMap_map

theorem filterMap_key?_effect (effects : List (Effect Change)) :
    (effects.map Task.effect).filterMap Task.key? = [] := by
  rw [List.filterMap_map]
  exact List.filterMap_eq_nil_iff.mpr fun _ _ => rfl

namespace Workspace

variable {w : Workspace} {n : NodeId} {id : String} {key : Nat} {t : Ticket} {task : Task} {tasks : List Task}

/-- Nobody is set down to be called. -/
theorem places_nil {next : Next} (h : next.1.filterMap Task.key? = []) : next.Places w.graph := fun key hkey => by
  rw [h] at hkey
  cases hkey

theorem places_edit {outcome : Edited (List Listener × Graph)}
    (h : ∀ listeners g, outcome = .ok (listeners, g) → w.graph.Placed listeners) :
    (w.edit n outcome).Places w.graph := by
  rcases outcome with fault | ⟨listeners, g⟩
  · exact places_nil rfl
  · intro key hkey
    have hreply : [Task.release [.node n], .reply (.done true)].filterMap Task.key? = [] := rfl
    rw [edit, List.filterMap_append, filterMap_key?_tell, hreply, List.append_nil] at hkey
    exact h listeners g rfl key hkey

theorem places_editSilently {outcome : Edited (List Listener × Graph)}
    (h : ∀ listeners g, outcome = .ok (listeners, g) → w.graph.Placed listeners) :
    (w.editSilently outcome).Places w.graph := by
  rcases outcome with fault | ⟨listeners, g⟩
  · exact places_nil rfl
  · intro key hkey
    rw [editSilently, filterMap_key?_tell] at hkey
    exact h listeners g rfl key hkey

theorem places_checked (outcome : Edited Unit × Graph) : (w.checked outcome).Places w.graph := by
  obtain ⟨fault | ⟨⟩, g⟩ := outcome <;> exact places_nil rfl

theorem places_keepBooks {w' : Workspace} (result : History Change × List (Effect Change)) :
    (w'.keepBooks result).Places w.graph :=
  places_nil (by rw [keepBooks, List.filterMap_append, filterMap_key?_effect]; rfl)

theorem places_keepBooks? (result : Option (History Change × List (Effect Change))) :
    (w.keepBooks? result).Places w.graph := by
  cases result with
  | none => exact places_nil rfl
  | some result => exact places_keepBooks result

theorem places_withCopies (changes : List Change) (effects : List (Effect Change)) :
    (w.withCopies changes effects).Places w.graph := by
  have hdiscards : changes.map (Task.effect ∘ Effect.discard) = (changes.map Effect.discard).map Task.effect := by
    rw [List.map_map]
  refine places_nil ?_
  rw [withCopies, hdiscards, List.filterMap_append, List.filterMap_append, filterMap_key?_effect,
    filterMap_key?_effect]
  rfl

theorem places_mergeInto (a b : Change) : (w.mergeInto id a b).Places w.graph := by
  rw [mergeInto]
  split <;> exact places_nil rfl

/-- By the shape of the step. -/
theorem places_perform (w : Workspace) (step : Step) : KnownPlaces w.graph (w.perform step) := by
  cases step with
  | set id value => exact .bind fun n _ => places_edit fun _ _ he => placed_setInput he
  | setFormula id formula => exact .bind fun n _ => places_edit fun _ _ he => placed_setFormula he
  | record | input | expression | expressions | remove | get | find | resolve | names | listing | freeExpression
  | clone | read | state | applyChange | revertChange | watch =>
    exact .bind fun _ _ => places_nil rfl
  | freeConstant | freeInput | states | ticket => exact places_nil rfl
  | depends | same | insert | push => exact .bind fun _ _ => .bind fun _ _ => places_nil rfl
  | handle | parse =>
    refine .bind fun r _ => ?_
    split <;> exact places_nil rfl
  | dropNode | dropRecord | unwatch =>
    rw [perform]
    split <;> exact places_nil rfl
  | check | checkAll => exact .bind fun _ _ => places_checked _
  | openBatch | closeBatch | abandonBatch | markSaved | history => exact places_keepBooks _
  | undo | redo => exact places_keepBooks? _
  | make change =>
    refine .bind fun made _ => ?_
    obtain ⟨fault | change, w'⟩ := made
    · exact places_nil rfl
    · exact places_keepBooks _
  | prepare id change =>
    refine .bind fun made _ => ?_
    obtain ⟨fault | change, w'⟩ := made <;> exact places_nil rfl
  | merge => exact .bind fun _ _ => .bind fun _ _ => places_mergeInto _ _
  | batch | applyBatch | revertBatch => exact .bind fun _ _ => places_withCopies _ _

theorem places_tell (listener : Listener) : (w.tell listener).Places w.graph := by
  cases listener with
  | node n =>
    intro key hkey
    rw [tell, filterMap_key?_tell] at hkey
    exact placed_tell key hkey
  | callback key =>
    rw [tell]
    cases w.watches[key]? with
    | none => exact places_nil rfl
    | some watch =>
      refine places_nil ?_
      rw [List.filterMap_map]
      exact List.filterMap_eq_nil_iff.mpr fun _ _ => rfl

theorem places_affect (effect : Effect Change) : (w.affect effect).Places w.graph := by
  have hformulas : ∀ edits : List FormulaEdit, ∀ text : FormulaEdit → String,
      (edits.map fun edit => Task.setFormula edit.target (text edit)).filterMap Task.key? = [] := fun edits text => by
    rw [List.filterMap_map]
    exact List.filterMap_eq_nil_iff.mpr fun _ _ => rfl
  cases effect with
  | discard change => exact places_nil rfl
  | apply change =>
    cases change with
    | formulas edits => exact places_nil (hformulas edits _)
    | value | marker => exact places_nil rfl
  | revert change =>
    cases change with
    | formulas edits => exact places_nil (hformulas edits.reverse _)
    | value | marker => exact places_nil rfl

/-- Whoever is set down to be called has a place. -/
theorem places_advance (w : Workspace) (task : Task) : (w.advance task).Places w.graph := by
  cases task with
  | perform step =>
    have hperformed := places_perform w step
    rw [advance]
    cases hp : w.perform step with
    | ok next =>
      rw [hp] at hperformed
      exact hperformed
    | error id => exact places_nil rfl
  | tell listener => exact places_tell listener
  | setInput n value => exact places_editSilently fun _ _ he => placed_setInput he
  | setFormula n text => exact places_editSilently fun _ _ he => placed_setFormula he
  | effect effect => exact places_affect effect
  | release | reply | replyHistory => exact places_nil rfl

/-- The callbacks that are called by so many tasks, the first one first. -/
def called : Nat → List Task → Workspace → List Nat
  | 0, _, _ => []
  | _ + 1, [], _ => []
  | k + 1, task :: tasks, w => task.key?.toList ++ called k ((w.advance task).1 ++ tasks) (w.advance task).2

/-- Without a place a callback is not set down again. -/
theorem count_called_le (h : w.Sound (tasks.flatMap Task.holds) (tasks.flatMap Task.told))
    (hkey : key < w.watches.size) (hplaces : ∀ t, ¬ w.graph.Registered t (.callback key)) (k : Nat) :
    (called k tasks w).count key ≤ (tasks.filterMap Task.key?).count key := by
  induction k generalizing tasks w with
  | zero => exact Nat.zero_le _
  | succ k ih =>
    cases tasks with
    | nil => exact Nat.zero_le _
    | cons task tasks =>
      have hremains := remains_advance h task
      have hrest := ih (advance_sound_cons h) (Nat.lt_of_lt_of_le hkey hremains.keys)
        fun t ht => hplaces t (hremains.places t key hkey ht)
      have hnone : ((w.advance task).1.filterMap Task.key?).count key = 0 := List.count_eq_zero.mpr fun hmem => by
        obtain ⟨t, ht⟩ := places_advance w task key hmem
        exact hplaces t ht
      have htask : (task :: tasks).filterMap Task.key? = task.key?.toList ++ tasks.filterMap Task.key? := by
        cases hk : task.key? <;> simp [hk]
      rw [List.filterMap_append, List.count_append, hnone, Nat.zero_add] at hrest
      rw [called, htask, List.count_append, List.count_append]
      exact Nat.add_le_add_left hrest _

/-- A callback has one place, and when its ticket is gone, none. -/
theorem not_registered_of_dropped {rest : List Hold} {told : List NodeId} (h : w.Sound rest told) (he : w.Enrolled)
    (ht : w.graph.Registered t (.callback key)) (hlive : 0 < ((w.advance task).2.graph.cell t.source).owners)
    (hdropped : ∀ id : String, (w.advance task).2.tickets[id]? ≠ some t) (t' : Ticket) :
    ¬ (w.advance task).2.graph.Registered t' (.callback key) := by
  intro ht'
  have hbefore := (remains_advance h task).places t' key (he.attended.callback t key ht) ht'
  obtain ⟨hsource, hslot⟩ := he.attended.once t' t key hbefore ht
  have hsame : t' = t := ticket_eq hbefore ht hsource hslot
  obtain ⟨id, hid⟩ := (he.advance h task).ticketed t' key ht' (hsource ▸ hlive)
  exact hdropped id (hsame ▸ hid)

/-- Only a step that begins or ends a watch has a ticket gone, and it leaves nobody to call. -/
theorem keys_of_dropped {rest : List Hold} {told : List NodeId} (h : w.Sound rest told)
    (hid : w.tickets[id]? = some t) (hdropped : ∀ id : String, (w.advance task).2.tickets[id]? ≠ some t) :
    (w.advance task).1.filterMap Task.key? = [] := by
  by_cases htask : ∀ step, task = .perform step → step.isWatching = false
  · exact (hdropped id ((sameWatches_advance h htask).1 ▸ hid)).elim
  · push Not at htask
    obtain ⟨step, rfl, hstep⟩ := htask
    rw [advance]
    cases step with
    | watch id source script =>
      rw [perform]
      cases w.nodeNamed source <;> rfl
    | unwatch id =>
      rw [perform]
      cases w.tickets[id]? <;> rfl
    | _ => exact (hstep rfl).elim

/-- Whatever scripts do in between: once the ticket of a callback is gone, as a watch has been given up or
another has taken its name, and the node is still there, the callback is called by those alone who had been set
down to call it before. Without them it is never called again. -/
theorem called_of_dropped {k : Nat} {steps : List Step}
    (h : after k (steps.map .perform) {} = (task :: tasks, w)) (hid : w.tickets[id]? = some t)
    (ht : w.graph.Registered t (.callback key)) (hlive : (w.advance task).2.graph.isLive t.source = true)
    (hdropped : ∀ id : String, (w.advance task).2.tickets[id]? ≠ some t) (j : Nat) :
    (called j ((w.advance task).1 ++ tasks) (w.advance task).2).count key ≤ (tasks.filterMap Task.key?).count key := by
  obtain ⟨hsound, henrolled⟩ := enrolled_after k steps
  rw [h] at hsound henrolled
  have hplaces := not_registered_of_dropped hsound henrolled ht (of_decide_eq_true hlive) hdropped
  have hkey := Nat.lt_of_lt_of_le (henrolled.attended.callback t key ht) (remains_advance hsound task).keys
  have hcalled := count_called_le (advance_sound_cons hsound) hkey hplaces j
  rwa [List.filterMap_append, keys_of_dropped hsound hid hdropped, List.nil_append] at hcalled

/-- The callback has the place that the ticket under the name is for, and the next task has the ticket gone while
the node is still there. -/
def drops (w : Workspace) (task : Task) (id : String) (key : Nat) : Bool :=
  w.tickets[id]?.any fun t =>
    (w.graph.cell t.source).listeners.slots[t.slot]?.any (fun slot =>
      slot.generation == t.generation && slot.listener == some (.callback key)) &&
    ((w.advance task).2.graph.isLive t.source && (w.advance task).2.tickets.toList.all fun entry => entry.2 != t)

theorem exists_of_drops (h : w.drops task id key = true) :
    ∃ t, w.tickets[id]? = some t ∧ w.graph.Registered t (.callback key) ∧
      (w.advance task).2.graph.isLive t.source = true ∧ ∀ id : String, (w.advance task).2.tickets[id]? ≠ some t := by
  obtain ⟨t, hid, h⟩ := (Option.any_eq_true _ _).mp h
  obtain ⟨hplace, h⟩ := Bool.and_eq_true_iff.mp h
  obtain ⟨hlive, hall⟩ := Bool.and_eq_true_iff.mp h
  obtain ⟨⟨generation, listener⟩, hslot, hplace⟩ := (Option.any_eq_true _ _).mp hplace
  obtain ⟨hgeneration, hlistener⟩ := Bool.and_eq_true_iff.mp hplace
  cases eq_of_beq hgeneration
  cases eq_of_beq hlistener
  refine ⟨t, hid, hslot, hlive, fun id' hid' => ?_⟩
  have hne := List.all_eq_true.mp hall (id', t) (Std.TreeMap.mem_toList_iff_getElem?_eq_some.mpr hid')
  simp at hne

/-- A watch that is given up, and a change after that. -/
def givenUpSteps : List Step :=
  [.record "r" none, .input "r" "a" "a" (.bool true), .watch "w" "a" [], .unwatch "w", .set "a" (.bool false)]

theorem not_called_of_givenUp :
    ∃ task tasks w, after 6 (givenUpSteps.map .perform) {} = (task :: tasks, w) ∧ w.drops task "w" 0 = true ∧
      ∀ j, 0 ∉ called j ((w.advance task).1 ++ tasks) (w.advance task).2 := by
  have hread : (match after 6 (givenUpSteps.map .perform) {} with
      | (task :: tasks, w) => w.drops task "w" 0 && (tasks.filterMap Task.key?).isEmpty
      | ([], _) => false) = true := by
    decide +kernel
  rcases hafter : after 6 (givenUpSteps.map .perform) {} with ⟨_ | ⟨task, tasks⟩, w⟩
  · rw [hafter] at hread
    cases hread
  · rw [hafter] at hread
    obtain ⟨hdrops, hnone⟩ := Bool.and_eq_true_iff.mp hread
    refine ⟨task, tasks, w, rfl, hdrops, fun j => ?_⟩
    obtain ⟨t, hid, ht, hlive, hdropped⟩ := exists_of_drops hdrops
    have hcount := called_of_dropped hafter hid ht hlive hdropped j
    rw [List.isEmpty_iff.mp hnone] at hcount
    exact List.count_eq_zero.mp (Nat.le_zero.mp hcount)

/-- A watch that is given up by the script of another, which has been told of the same change. -/
def givenUpMeanwhileSteps : List Step :=
  [.record "r" none, .input "r" "a" "a" (.bool true), .watch "v" "a" [.unwatch "w"], .watch "w" "a" [],
    .set "a" (.bool false)]

/-- It is called all the same. -/
theorem called_of_givenUpMeanwhile :
    ∃ task tasks w, after 10 (givenUpMeanwhileSteps.map .perform) {} = (task :: tasks, w) ∧
      w.drops task "w" 1 = true ∧ 1 ∈ called 5 ((w.advance task).1 ++ tasks) (w.advance task).2 := by
  have hread : (match after 10 (givenUpMeanwhileSteps.map .perform) {} with
      | (task :: tasks, w) =>
        w.drops task "w" 1 && (called 5 ((w.advance task).1 ++ tasks) (w.advance task).2).contains 1
      | ([], _) => false) = true := by
    decide +kernel
  rcases hafter : after 10 (givenUpMeanwhileSteps.map .perform) {} with ⟨_ | ⟨task, tasks⟩, w⟩
  · rw [hafter] at hread
    cases hread
  · rw [hafter] at hread
    obtain ⟨hdrops, hcalled⟩ := Bool.and_eq_true_iff.mp hread
    exact ⟨task, tasks, w, rfl, hdrops, List.contains_iff_mem.mp hcalled⟩

end Workspace

end FormulaGraph
