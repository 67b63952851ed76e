import FormulaGraph.Proofs.Attending
import FormulaGraph.Proofs.Stages

/-! Who is left in the places. A node that is gone has no place with one that is not, and a callback has the place
that the ticket of its watch is for. -/

namespace FormulaGraph

open FormulaGraph.Graph

namespace Graph

variable {g g' g₀ : Graph} {k k₀ key : Nat} {n m root : NodeId} {l : Listener} {t : Ticket} {ext : List Hold}
  {node : Node} {cache : Option Value}

/-- Every node with a place that is left is left itself. -/
def Present (g : Graph) : Prop :=
  ∀ t m, g.Registered t (.node m) → 0 < (g.cell t.source).owners → 0 < (g.cell m).owners

/-- Whoever goes gives up its places, if it has the tickets for them. -/
theorem Present.thins (h : g.Present) (hthins : g.Thins g')
    (htickets : ∀ t m, g'.Registered t (.node m) → t ∈ (g.node m).tickets) : g'.Present := by
  intro t m ht hsource
  have hm := h t m (hthins.listeners t _ ht) (hthins.live _ hsource)
  exact Nat.pos_of_ne_zero fun hgone => hthins.leaves m t _ hm hgone (htickets t m ht) hsource ht

theorem Present.wanes (h : g.Present) (ha : g.Attended k) (hw : g.Wanes g') : g'.Present :=
  h.thins hw.toThins fun t m ht => ha.node t m (hw.listeners t _ ht)

theorem Present.modifyCell {f : Cell → Cell} (h : g.Present) (hlisteners : ∀ c, (f c).listeners = c.listeners)
    (howners : ∀ c, (f c).owners = c.owners) : (g.modifyCell n f).Present := by
  intro t m ht hsource
  rw [Registered, cell_modifyCell_congr Cell.listeners hlisteners] at ht
  rw [cell_modifyCell_congr Cell.owners howners] at hsource ⊢
  exact h t m ht hsource

theorem source_lt_of_registered (h : g.Registered t l) : t.source < g.cells.size := by
  refine Nat.lt_of_not_le fun hle => ?_
  rw [Registered, cell, Array.getElem?_eq_none hle] at h
  simp [Cell.absent, Arena.Holds] at h

theorem live_addCell_of (h : 0 < (g.cell m).owners) : 0 < ((g.addCell node cache).2.cell m).owners := by
  rw [cell_addCell]
  split
  · exact Nat.one_pos
  · exact h

theorem live_of_addCell (h : 0 < ((g.addCell node cache).2.cell m).owners) (hm : m < g.cells.size) :
    0 < (g.cell m).owners := by
  rwa [cell_addCell, if_neg (Nat.ne_of_lt hm)] at h

theorem Present.addCell (h : g.Present) : (g.addCell node cache).2.Present := by
  intro t m ht hsource
  have hbefore := registered_addCell ht
  exact live_addCell_of (h t m hbefore (live_of_addCell hsource (source_lt_of_registered hbefore)))

theorem Present.calculation (h : g.Present) (operation : Operation) (operands : List NodeId) (offset : Nat) :
    (g.addCalculation operation operands offset).2.Present := by
  have hsize : (g.subscribeAll operands (.node g.cells.size)).2.cells.size = g.cells.size :=
    (alike_subscribeAll operands _).size
  rw [addCalculation]
  intro t m ht hsource
  have hplace := registered_addCell ht
  have hsource' := live_of_addCell hsource (source_lt_of_registered hplace)
  rcases registered_subscribeAll hplace with hbefore | ⟨-, hl⟩
  · rw [owners_subscribeAll] at hsource'
    refine live_addCell_of ?_
    rw [owners_subscribeAll]
    exact h t m hbefore hsource'
  · exact live_addCell ((Listener.node.inj hl).trans hsize.symm)

/-- The expression that has come to listen is left, and who is gone with the old tree has its tickets. -/
theorem Present.install {scope : RecordId} {source : Source} (h : g.Present) (ha : g.Attended k)
    (haccounts : g.Accounts ext) (hn : 0 < (g.cell n).owners) (hnode : g.node n = .expression scope source)
    (text : String) : ((installTree n scope text root source.tree?).run g).2.Present := by
  have hattended : ((installTree n scope text root source.tree?).run g).2.Attended k :=
    ha.install haccounts hn hnode text
  have hsubscribed : (g.subscribe root (.node n)).2.Present := fun t m ht hsource => by
    rw [owners_subscribe] at hsource ⊢
    rcases registered_subscribe ht with hbefore | ⟨-, hl⟩
    · exact h t m hbefore hsource
    · rwa [Listener.node.inj hl]
  rw [run_installTree] at hattended ⊢
  refine (hsubscribed.modifyCell (by exact fun _ => rfl) (by exact fun _ => rfl)).thins thins_release
    fun t m ht => ?_
  have hmem := hattended.node t m ht
  exact wanes_release.tickets m ▸ hmem

theorem outlasts_present : Outlasts fun k _ g => g.Attended k ∧ g.Present where
  wanes h hw := ⟨h.1.wanes hw, h.2.wanes h.1 hw⟩
  leaf cache h _ _ := ⟨h.1.leaf cache, h.2.addCell⟩
  calculation operation offset h _ := ⟨h.1.calculation operation offset, h.2.calculation operation _ offset⟩
  start _ h := ⟨h.1.setEvaluating true, h.2.modifyCell (by exact fun _ => rfl) (by exact fun _ => rfl)⟩
  finish h := ⟨h.1.setEvaluating false, h.2.modifyCell (by exact fun _ => rfl) (by exact fun _ => rfl)⟩
  install h ha hn hnode _ _ _ _ := ⟨h.1.install ha hn hnode _, h.2.install h.1 ha hn hnode _⟩
  watch n h := by
    refine ⟨h.1.watch n, fun t m ht hsource => ?_⟩
    rw [owners_subscribe] at hsource ⊢
    rcases registered_subscribe ht with hbefore | ⟨-, hl⟩
    · exact h.2 t m hbefore hsource
    · cases hl

/-- Each of the first `k₀` callbacks that has a place had it in `g₀`. -/
structure Remains (k₀ : Nat) (g₀ : Graph) (k : Nat) (g : Graph) : Prop where
  keys : k₀ ≤ k
  places (t : Ticket) (key : Nat) : key < k₀ → g.Registered t (.callback key) → g₀.Registered t (.callback key)
  live (t : Ticket) (key : Nat) : key < k₀ → g.Registered t (.callback key) → 0 < (g.cell t.source).owners →
    0 < (g₀.cell t.source).owners

theorem Remains.refl (k : Nat) (g : Graph) : Remains k g k g :=
  ⟨Nat.le_refl k, fun _ _ _ ht => ht, fun _ _ _ _ hsource => hsource⟩

theorem Remains.of_registered (h : Remains k₀ g₀ k g) (hregistered : ∀ t key, key < k₀ →
    g'.Registered t (.callback key) → g.Registered t (.callback key))
    (hlive : ∀ t key, g.Registered t (.callback key) → 0 < (g'.cell t.source).owners →
      0 < (g.cell t.source).owners) : Remains k₀ g₀ k g' where
  keys := h.keys
  places t key hkey ht := h.places t key hkey (hregistered t key hkey ht)
  live t key hkey ht hsource := by
    have hbefore := hregistered t key hkey ht
    exact h.live t key hkey hbefore (hlive t key hbefore hsource)

theorem outlasts_remains : Outlasts fun k _ g => Remains k₀ g₀ k g where
  wanes h hw := h.of_registered (fun t _ _ => hw.listeners t _) fun t _ _ => hw.live t.source
  leaf cache h _ _ := h.of_registered (fun _ _ _ => registered_addCell) fun _ _ ht hsource =>
    live_of_addCell hsource (source_lt_of_registered ht)
  calculation {k busy g operands} operation offset h _ := by
    have hsize : (g.subscribeAll operands (.node g.cells.size)).2.cells.size = g.cells.size :=
      (alike_subscribeAll operands _).size
    rw [addCalculation]
    refine h.of_registered (fun t key _ ht => ?_) fun t key ht hsource => ?_
    · rcases registered_subscribeAll (registered_addCell ht) with hbefore | ⟨-, hl⟩
      · exact hbefore
      · cases hl
    · have hsource' := live_of_addCell hsource (Nat.lt_of_lt_of_eq (source_lt_of_registered ht) hsize.symm)
      rwa [owners_subscribeAll] at hsource'
  start n h := h.of_registered
    (fun t _ _ ht => by rwa [Registered, cell_modifyCell_congr Cell.listeners (by exact fun _ => rfl)] at ht)
    fun t _ _ hsource => by rwa [cell_modifyCell_congr Cell.owners (by exact fun _ => rfl)] at hsource
  finish h := h.of_registered
    (fun t _ _ ht => by rwa [Registered, cell_modifyCell_congr Cell.listeners (by exact fun _ => rfl)] at ht)
    fun t _ _ hsource => by rwa [cell_modifyCell_congr Cell.owners (by exact fun _ => rfl)] at hsource
  install {k busy g ext n root scope source text} h _ _ _ _ _ _ _ := by
    rw [run_installTree]
    refine h.of_registered (fun t key _ ht => ?_) fun t key _ hsource => ?_
    · have hbefore := registered_of_release ht
      rw [Registered, cell_modifyCell_congr Cell.listeners (by exact fun _ => rfl)] at hbefore
      rcases registered_subscribe hbefore with hbefore | ⟨-, hl⟩
      · exact hbefore
      · cases hl
    · have hsource' := Nat.lt_of_lt_of_le hsource (owners_release_le _)
      rwa [cell_modifyCell_congr Cell.owners (by exact fun _ => rfl), owners_subscribe] at hsource'
  watch {k busy g} n h := by
    have hwatched : Remains k₀ g₀ k (g.subscribe n (.callback k)).2 := by
      refine h.of_registered (fun t key hkey ht => ?_) fun t key _ hsource => by rwa [owners_subscribe] at hsource
      rcases registered_subscribe ht with hbefore | ⟨-, hl⟩
      · exact hbefore
      · have hk := h.keys
        cases hl
        omega
    exact ⟨Nat.le_succ_of_le h.keys, hwatched.places, hwatched.live⟩

end Graph

/-- Begins or ends a watch. -/
def Step.isWatching : Step → Bool
  | .watch .. | .unwatch .. => true
  | _ => false

/-- The same watches as before, with the same tickets. -/
def SameWatches (w w' : Workspace) : Prop := w'.tickets = w.tickets ∧ w'.watches = w.watches

def KnownSame (w : Workspace) : Known Next → Prop
  | .ok next => SameWatches w next.2
  | .error _ => True

theorem KnownSame.bind {w : Workspace} {α : Type} {x : Known α} {f : α → Known Next}
    (h : ∀ a, x = .ok a → KnownSame w (f a)) : KnownSame w (x >>= f) := by
  cases x with
  | ok a => exact h a rfl
  | error id => trivial

namespace Workspace

variable {w : Workspace} {rest : List Hold} {told : List NodeId} {n : NodeId} {id : String}

/-- Each callback that has a place with a node that is left has it by a ticket in the table. -/
def Ticketed (w : Workspace) : Prop :=
  ∀ t key, w.graph.Registered t (.callback key) → 0 < (w.graph.cell t.source).owners →
    ∃ id : String, w.tickets[id]? = some t

theorem sameWatches_edit (outcome : Edited (List Listener × Graph)) : SameWatches w (w.edit n outcome).2 := by
  cases outcome <;> exact ⟨rfl, rfl⟩

theorem sameWatches_checked (outcome : Edited Unit × Graph) : SameWatches w (w.checked outcome).2 := by
  obtain ⟨fault | ⟨⟩, g⟩ := outcome <;> exact ⟨rfl, rfl⟩

theorem sameWatches_keepBooks? (result : Option (History Change × List (Effect Change))) :
    SameWatches w (w.keepBooks? result).2 := by
  cases result <;> exact ⟨rfl, rfl⟩

theorem sameWatches_mergeInto (a b : Change) : SameWatches w (w.mergeInto id a b).2 := by
  rw [mergeInto]
  split <;> exact ⟨rfl, rfl⟩

/-- By the shape of the step. -/
theorem sameWatches_perform (h : w.Sound rest told) {step : Step} (hstep : step.isWatching = false) :
    KnownSame w (w.perform step) := by
  cases step with
  | watch | unwatch => cases hstep
  | record | input | expression | expressions | remove | get | find | resolve | names | listing | freeExpression
  | clone | read | state | applyChange | revertChange | batch | applyBatch | revertBatch =>
    exact .bind fun _ _ => ⟨rfl, rfl⟩
  | freeConstant | freeInput | states | ticket | openBatch | closeBatch | abandonBatch | markSaved | history =>
    exact ⟨rfl, rfl⟩
  | depends | same => exact .bind fun _ _ => .bind fun _ _ => ⟨rfl, rfl⟩
  | insert | push =>
    refine .bind fun r _ => .bind fun made hm => ?_
    obtain ⟨member, w'⟩ := made
    obtain ⟨g, rfl, -⟩ := makeMember_sound _ h hm
    exact ⟨rfl, rfl⟩
  | handle scope name id =>
    refine .bind fun r _ => ?_
    split <;> exact ⟨rfl, rfl⟩
  | parse id scope formula =>
    refine .bind fun r _ => ?_
    split <;> exact ⟨rfl, rfl⟩
  | dropNode id | dropRecord id =>
    rw [perform]
    split <;> exact ⟨rfl, rfl⟩
  | set | setFormula => exact .bind fun n _ => sameWatches_edit _
  | check | checkAll => exact .bind fun _ _ => sameWatches_checked _
  | undo | redo => exact sameWatches_keepBooks? _
  | make change | prepare id change =>
    refine .bind fun made hm => ?_
    obtain ⟨made, w'⟩ := made
    obtain ⟨g, rfl, -⟩ := makeChange_sound _ h hm
    cases made <;> exact ⟨rfl, rfl⟩
  | merge => exact .bind fun _ _ => .bind fun _ _ => sameWatches_mergeInto _ _

theorem sameWatches_tell (listener : Listener) : SameWatches w (w.tell listener).2 := by
  cases listener with
  | node n => exact ⟨rfl, rfl⟩
  | callback key =>
    rw [tell]
    cases w.watches[key]? <;> exact ⟨rfl, rfl⟩

theorem sameWatches_editSilently (outcome : Edited (List Listener × Graph)) :
    SameWatches w (w.editSilently outcome).2 := by
  cases outcome <;> exact ⟨rfl, rfl⟩

theorem sameWatches_affect (effect : Effect Change) : SameWatches w (w.affect effect).2 := by
  cases effect with
  | discard change => exact ⟨rfl, rfl⟩
  | apply change | revert change => cases change <;> exact ⟨rfl, rfl⟩

theorem sameWatches_advance (h : w.Sound rest told) {task : Task}
    (htask : ∀ step, task = .perform step → step.isWatching = false) : SameWatches w (w.advance task).2 := by
  cases task with
  | perform step =>
    have hperformed := sameWatches_perform h (htask step rfl)
    rw [advance]
    cases hp : w.perform step with
    | ok next =>
      rw [hp] at hperformed
      exact hperformed
    | error id => exact ⟨rfl, rfl⟩
  | tell listener => exact sameWatches_tell listener
  | setInput | setFormula => exact sameWatches_editSilently _
  | effect effect => exact sameWatches_affect effect
  | release | reply | replyHistory => exact ⟨rfl, rfl⟩

/-- The new callback has the new ticket, and the one under whose name it comes has given up its place. -/
theorem Ticketed.watch (h : w.Ticketed) (n : NodeId) (id : String) (script : List Step) :
    (w.watch id n script).2.Ticketed := by
  have hgraph : (w.watch id n script).2.graph =
      (w.graph.subscribe n (.callback w.watches.size)).2.release (w.tickets[id]?.toList.map .ticket) := rfl
  intro t key ht hsource
  rw [hgraph] at ht hsource
  have hplace := registered_of_release ht
  have hsource' := Nat.lt_of_lt_of_le hsource (owners_release_le _)
  rw [owners_subscribe] at hsource'
  show ∃ id' : String, (w.tickets.insert id (w.graph.subscribe n (.callback w.watches.size)).1)[id']? = some t
  rcases registered_subscribe hplace with hbefore | ⟨rfl, -⟩
  · obtain ⟨id', hid'⟩ := h t key hbefore hsource'
    refine ⟨id', ?_⟩
    rw [Std.TreeMap.getElem?_insert, if_neg, hid']
    intro he
    rw [← Std.LawfulEqOrd.eq_of_compare he] at hid'
    refine not_registered_release ?_ hsource ht
    rw [hid']
    exact List.mem_singleton_self _
  · exact ⟨id, Std.TreeMap.getElem?_insert_self⟩

/-- Only the callback whose ticket is given up gives up its place. -/
theorem Ticketed.unwatch (h : w.Ticketed) {t : Ticket} (hid : w.tickets[id]? = some t) :
    Ticketed { w with tickets := w.tickets.erase id, graph := w.graph.unsubscribe t } := by
  intro t' key ht hsource
  have hsource' := hsource
  rw [owners_unsubscribe] at hsource'
  obtain ⟨id', hid'⟩ := h t' key (registered_of_unsubscribe ht) hsource'
  refine ⟨id', ?_⟩
  show (w.tickets.erase id)[id']? = some t'
  rw [Std.TreeMap.getElem?_erase, if_neg, hid']
  intro he
  rw [← Std.LawfulEqOrd.eq_of_compare he, hid] at hid'
  cases hid'
  exact not_registered_unsubscribe hsource' ht

/-- No callback that there was has come to another place. -/
theorem remains_advance (h : w.Sound rest told) (task : Task) :
    Remains w.watches.size w.graph (w.advance task).2.watches.size (w.advance task).2.graph :=
  advance_outlasts outlasts_remains task h (Remains.refl _ _)

/-- No watch is begun or ended, and no callback comes to another place. -/
theorem Ticketed.of_remains {w' : Workspace} (h : w.Ticketed) (hsame : SameWatches w w')
    (ha : w'.graph.Attended w'.watches.size)
    (hremains : Remains w.watches.size w.graph w'.watches.size w'.graph) : w'.Ticketed := by
  obtain ⟨htickets, hwatches⟩ := hsame
  intro t key ht hsource
  have hkey : key < w.watches.size := hwatches ▸ ha.callback t key ht
  rw [htickets]
  exact h t key (hremains.places t key hkey ht) (hremains.live t key hkey ht hsource)

theorem Ticketed.advance (h : w.Ticketed) (hsound : w.Sound rest told) (ha : w.graph.Attended w.watches.size)
    (task : Task) : (w.advance task).2.Ticketed := by
  by_cases htask : ∀ step, task = .perform step → step.isWatching = false
  · exact h.of_remains (sameWatches_advance hsound htask) (advance_outlasts outlasts_attended task hsound ha)
      (remains_advance hsound task)
  · push Not at htask
    obtain ⟨step, rfl, hstep⟩ := htask
    rw [Workspace.advance]
    cases step with
    | watch id source script =>
      rw [perform]
      cases hn : w.nodeNamed source with
      | ok n => exact h.watch n id script
      | error id => exact h
    | unwatch id =>
      rw [perform]
      cases ht : w.tickets[id]? with
      | some t => exact h.unwatch ht
      | none => exact h
    | _ => exact (hstep rfl).elim

/-- Whoever has a place is there, and has the ticket for it. -/
structure Enrolled (w : Workspace) : Prop where
  attended : w.graph.Attended w.watches.size
  present : w.graph.Present
  ticketed : w.Ticketed

theorem Enrolled.advance (h : w.Enrolled) (hsound : w.Sound rest told) (task : Task) :
    (w.advance task).2.Enrolled := by
  obtain ⟨hattended, hpresent⟩ := advance_outlasts outlasts_present task hsound ⟨h.attended, h.present⟩
  exact ⟨hattended, hpresent, h.ticketed.advance hsound h.attended task⟩

/-- Moves that keep whatever outlasts everything leave whoever has a place enrolled. -/
theorem Enrolled.outlasts {g : Graph} (h : w.Enrolled)
    (hkeeps : ∀ {Q : Nat → List NodeId → Graph → Prop}, Outlasts Q → Q w.watches.size [] w.graph →
      Q w.watches.size [] g) : Enrolled { w with graph := g } := by
  obtain ⟨hattended, hpresent⟩ := hkeeps outlasts_present ⟨h.attended, h.present⟩
  have hremains : Remains w.watches.size w.graph w.watches.size g := hkeeps outlasts_remains (.refl _ _)
  exact ⟨hattended, hpresent, h.ticketed.of_remains ⟨rfl, rfl⟩ hattended hremains⟩

theorem Enrolled.read (h : w.Enrolled) (hsound : w.Sound rest told) (hn : w.graph.Anchored (rest ++ w.holds) n) :
    Enrolled { w with graph := (w.graph.read n).2 } :=
  h.outlasts fun hQ hg => hQ.read hg hsound hn

theorem enrolled_empty : Enrolled {} := by
  have hnobody : ∀ t l, ¬ ({} : Graph).Registered t l := fun t l ht => by
    simp [Graph.Registered, Graph.cell, Cell.absent, Arena.Holds] at ht
  exact
    { attended := ⟨fun t m ht => (hnobody t _ ht).elim, fun t key ht => (hnobody t _ ht).elim,
        fun t _ key ht _ => (hnobody t _ ht).elim⟩
      present := fun t m ht _ => (hnobody t _ ht).elim
      ticketed := fun t key ht _ => (hnobody t _ ht).elim }

/-- Also while others are still to be told. -/
theorem enrolled_after (k : Nat) (steps : List Step) :
    (after k (steps.map .perform) {}).2.Sound ((after k (steps.map .perform) {}).1.flatMap Task.holds)
      ((after k (steps.map .perform) {}).1.flatMap Task.told) ∧ (after k (steps.map .perform) {}).2.Enrolled :=
  sound_after (fun _ _ task _ hw he => he.advance hw task) enrolled_empty k steps

theorem enrolled_of_run {limit : Nat} {steps : List Step}
    (h : Workspace.run limit {} (steps.map .perform) = some w) : w.Sound [] [] ∧ w.Enrolled := by
  have hafter := enrolled_after limit steps
  rwa [run_eq_some_iff.mp h] at hafter

end Workspace

end FormulaGraph
