import FormulaGraph.Proofs.Bookkeeping
import FormulaGraph.Proofs.Recording
import FormulaGraph.Workspace.Perform

/-! What a workspace holds. Its tables, its history and the tasks that are left to do hold what is held from
outside its graph; moving holds between them keeps the graph sound. -/

namespace FormulaGraph

/-- What the task gives up when it is its turn. -/
def Task.holds : Task → List Hold
  | .release given => given
  | .effect e => e.discards.flatMap Change.holds
  | _ => []

def Task.told : Task → List NodeId
  | .tell listener => toldBy [listener]
  | _ => []

namespace Workspace

def holds (w : Workspace) : List Hold :=
  allOf (fun n => [.node n]) w.handles ++ (allOf (fun r => [.record r]) w.records ++
    (allOf (fun t => [.ticket t]) w.tickets ++ (allOf Change.holds w.changes ++
      w.history.changes.flatMap Change.holds)))

/-- The graph is sound if `rest` is held elsewhere and `told` are still to be told. -/
def Sound (w : Workspace) (rest : List Hold) (told : List NodeId) : Prop :=
  w.graph.Sound (rest ++ w.holds) told

end Workspace

/-- The same with the tasks that come first. -/
def Next.Sound (rest : List Hold) (told : List NodeId) (next : Next) : Prop :=
  next.2.Sound (next.1.flatMap Task.holds ++ rest) (next.1.flatMap Task.told ++ told)

def KnownSound (rest : List Hold) (told : List NodeId) : Known Next → Prop
  | .ok next => Next.Sound rest told next
  | .error _ => True

theorem KnownSound.bind {α : Type} {rest : List Hold} {told : List NodeId} {x : Known α}
    {f : α → Known Next} (h : ∀ a, x = .ok a → KnownSound rest told (f a)) :
    KnownSound rest told (x >>= f) := by
  cases x with
  | ok a => exact h a rfl
  | error id => trivial

theorem flatMap_toList {α β : Type} (o : Option α) (f : α → β) :
    o.toList.flatMap (fun a => [f a]) = o.toList.map f := by
  cases o <;> rfl

theorem holds_map_tell (listeners : List Listener) : (listeners.map Task.tell).flatMap Task.holds = [] := by
  induction listeners with
  | nil => rfl
  | cons listener listeners ih => exact ih

theorem told_map_tell (listeners : List Listener) :
    (listeners.map Task.tell).flatMap Task.told = toldBy listeners := by
  induction listeners with
  | nil => rfl
  | cons listener listeners ih =>
    rw [List.map_cons, List.flatMap_cons, ih]
    cases listener <;> rfl

theorem holds_map_effect (effects : List (Effect Change)) :
    (effects.map Task.effect).flatMap Task.holds = (effects.flatMap Effect.discards).flatMap Change.holds := by
  induction effects with
  | nil => rfl
  | cons effect effects ih =>
    rw [List.map_cons, List.flatMap_cons, ih, List.flatMap_cons, List.flatMap_append]
    rfl

theorem told_map_effect (effects : List (Effect Change)) :
    (effects.map Task.effect).flatMap Task.told = [] := by
  induction effects with
  | nil => rfl
  | cons effect effects ih => exact ih

namespace Workspace

variable {w : Workspace} {g : Graph} {rest : List Hold} {told : List NodeId} {n : NodeId} {r : RecordId}
  {id name : String}

theorem mem_holds_of_handle (h : w.handles[id]? = some n) : .node n ∈ w.holds :=
  List.mem_append_left _ (mem_allOf h (List.mem_singleton_self _))

theorem nodeNamed_mem (h : w.nodeNamed id = .ok n) : .node n ∈ w.holds := by
  rw [nodeNamed] at h
  split at h
  next hn =>
    cases h
    exact mem_holds_of_handle hn
  · cases h

theorem recordNamed_mem (h : w.recordNamed id = .ok r) : .record r ∈ w.holds := by
  rw [recordNamed] at h
  split at h
  next hr =>
    cases h
    exact List.mem_append_right _ (List.mem_append_left _ (mem_allOf hr (List.mem_singleton_self _)))
  · cases h

theorem mem_holds_of_change {change : Change} {x : Hold} (h : w.changes[id]? = some change)
    (hx : x ∈ change.holds) : x ∈ w.holds :=
  List.mem_append_right _ (List.mem_append_right _ (List.mem_append_right _
    (List.mem_append_left _ (mem_allOf h hx))))

theorem getElem?_of_changeNamed {change : Change} (h : w.changeNamed id = .ok change) :
    w.changes[id]? = some change := by
  rw [changeNamed] at h
  split at h
  next hc =>
    cases h
    exact hc
  · cases h

theorem Sound.node_mem (_ : w.Sound rest told) (hn : w.nodeNamed id = .ok n) :
    .node n ∈ rest ++ w.holds :=
  List.mem_append_right _ (nodeNamed_mem hn)

theorem Sound.record_live (h : w.Sound rest told) (hr : w.recordNamed id = .ok r) :
    0 < (w.graph.record r).owners :=
  h.accounts.record_live (List.mem_append_right _ (recordNamed_mem hr))

theorem reply_sound (h : w.Sound rest told) (answer : Answer) : Next.Sound rest told (w.reply answer) := h

/-- The table takes over the hold on the node, and gives up what the name stood for. -/
theorem keepNode_sound (h : w.graph.Sound (.node n :: (rest ++ w.holds)) told) :
    (w.keepNode id n).Sound rest told := by
  refine Graph.Sound.release (h.mono fun p => ?_)
  have hinsert := countP_allOf_insert (fun n => [Hold.node n]) w.handles id n p
  rw [flatMap_toList] at hinsert
  simp only [holds, keepNode, List.countP_append, List.countP_cons, List.countP_nil] at hinsert ⊢
  omega

theorem keepRecord_sound (h : w.graph.Sound (.record r :: (rest ++ w.holds)) told) :
    (w.keepRecord id r).Sound rest told := by
  refine Graph.Sound.release (h.mono fun p => ?_)
  have hinsert := countP_allOf_insert (fun r => [Hold.record r]) w.records id r p
  rw [flatMap_toList] at hinsert
  simp only [holds, keepRecord, List.countP_append, List.countP_cons, List.countP_nil] at hinsert ⊢
  omega

theorem keepTicket_sound {t : Ticket} (h : w.graph.Sound (.ticket t :: (rest ++ w.holds)) told) :
    (w.keepTicket id t).Sound rest told := by
  refine Graph.Sound.release (h.mono fun p => ?_)
  have hinsert := countP_allOf_insert (fun t => [Hold.ticket t]) w.tickets id t p
  rw [flatMap_toList] at hinsert
  simp only [holds, keepTicket, List.countP_append, List.countP_cons, List.countP_nil] at hinsert ⊢
  omega

theorem keepChange_sound {change : Change}
    (h : w.graph.Sound (change.holds ++ (rest ++ w.holds)) told) :
    (w.keepChange id change).Sound rest told := by
  refine Graph.Sound.release (h.mono fun p => ?_)
  have hinsert := countP_allOf_insert Change.holds w.changes id change p
  simp only [holds, keepChange, List.countP_append] at hinsert ⊢
  omega

theorem keepMade_sound {made : NodeId × Graph}
    (h : made.2.Sound (.node made.1 :: (rest ++ w.holds)) told) :
    Next.Sound rest told (w.keepMade id made) :=
  keepNode_sound (w := { w with graph := made.2 }) h

theorem bindMade_sound {made : NodeId × Graph}
    (h : made.2.Sound (.node made.1 :: (rest ++ w.holds)) told) (hr : .record r ∈ rest ++ w.holds) :
    Next.Sound rest told (w.bindMade r name id made) :=
  keepMade_sound (h.bind (h.accounts.record_live (List.mem_cons_of_mem _ hr)))

theorem edit_sound {outcome : Edited (List Listener × Graph)} (h : w.Sound rest told)
    (hedit : Graph.EditSound (rest ++ w.holds) told outcome) (hn : .node n ∈ rest ++ w.holds) :
    Next.Sound rest told (w.edit n outcome) := by
  rcases outcome with fault | ⟨listeners, g⟩
  · exact reply_sound h _
  · have hretained := Graph.Sound.retain_node hedit (hedit.accounts.node_live hn)
    rw [edit, Next.Sound, List.flatMap_append, holds_map_tell, List.flatMap_append, told_map_tell]
    show (g.retain (.node n)).Sound (.node n :: (rest ++ w.holds)) (toldBy listeners ++ [] ++ told)
    rw [List.append_nil]
    exact hretained

theorem checked_sound {outcome : Edited Unit × Graph} (h : outcome.2.Sound (rest ++ w.holds) told) :
    Next.Sound rest told (w.checked outcome) := by
  obtain ⟨fault | ⟨⟩, g⟩ := outcome
  · exact h
  · exact h

/-- What the history gives up is left to the effects. -/
theorem keepBooks_sound {result : History Change × List (Effect Change)} (given : List Hold)
    (h : w.graph.Sound (given ++ (rest ++ w.holds)) told)
    (hbalance : ∀ p, History.balance Change.holds p result ≤
      History.weigh Change.holds p w.history.changes + given.countP p) :
    Next.Sound rest told (w.keepBooks result) := by
  rw [keepBooks, Next.Sound, List.flatMap_append, holds_map_effect, List.flatMap_append, told_map_effect]
  refine Graph.Sound.mono h fun p => ?_
  have := hbalance p
  simp only [History.balance, History.weigh] at this
  simp only [holds, Task.holds, List.flatMap_cons, List.flatMap_nil, List.append_nil, List.countP_append]
  omega

theorem keepBooks?_sound {result : Option (History Change × List (Effect Change))} (h : w.Sound rest told)
    (hbalance : ∀ r, result = some r → ∀ p, History.balance Change.holds p r =
      History.weigh Change.holds p w.history.changes) :
    Next.Sound rest told (w.keepBooks? result) := by
  cases result with
  | none => exact h
  | some r => exact keepBooks_sound [] h fun p => Nat.le_of_eq (hbalance r rfl p)

theorem withCopies_sound {changes : List Change} {effects : List (Effect Change)} (h : w.Sound rest told)
    (hchanges : ∀ change ∈ changes, ∃ id : String, w.changes[id]? = some change)
    (heffects : effects.flatMap Effect.discards = []) :
    Next.Sound rest told (w.withCopies changes effects) := by
  have hretained : (w.graph.retainAll (changes.flatMap Change.holds)).Sound
      (changes.flatMap Change.holds ++ (rest ++ w.holds)) told := by
    refine Graph.Sound.retainAll h fun x hx => ?_
    obtain ⟨change, hchange, hx⟩ := List.mem_flatMap.mp hx
    obtain ⟨id, hid⟩ := hchanges change hchange
    exact ⟨List.mem_append_right _ (mem_holds_of_change hid hx), Change.ne_ticket hx⟩
  have hdiscards : changes.map (Task.effect ∘ Effect.discard) =
      (changes.map Effect.discard).map Task.effect := by
    rw [List.map_map]
  rw [withCopies, Next.Sound, hdiscards]
  simp only [List.flatMap_append, holds_map_effect, told_map_effect, heffects, History.discards_map_discard]
  show (w.graph.retainAll (changes.flatMap Change.holds)).Sound
    (changes.flatMap Change.holds ++ [] ++ rest ++ w.holds) told
  rw [List.append_nil, List.append_assoc]
  exact hretained

theorem withCopy_sound {change : Change} {effect : Effect Change} (h : w.Sound rest told)
    (hchange : w.changes[id]? = some change) (heffect : effect.discards = []) :
    Next.Sound rest told (w.withCopy change effect) := by
  have hretained : (w.graph.retainAll change.holds).Sound (change.holds ++ (rest ++ w.holds)) told :=
    Graph.Sound.retainAll h fun x hx =>
      ⟨List.mem_append_right _ (mem_holds_of_change hchange hx), Change.ne_ticket hx⟩
  have hholds : [Task.effect effect, .effect (.discard change), .reply (.done true)].flatMap Task.holds =
      change.holds := by
    show effect.discards.flatMap Change.holds ++ (change.holds ++ [] ++ []) = change.holds
    rw [heffect, List.append_nil, List.append_nil]
    rfl
  rw [withCopy, Next.Sound, hholds, Workspace.Sound, List.append_assoc]
  exact hretained

/-- The merged change holds what the first one held. -/
theorem mergeInto_sound {a b : Change} (h : w.Sound rest told) (ha : w.changes[id]? = some a) :
    Next.Sound rest told (w.mergeInto id a b) := by
  rw [mergeInto]
  cases hm : a.merge? b with
  | none => exact h
  | some merged =>
    refine Graph.Sound.mono h fun p => ?_
    have hinsert := countP_allOf_insert Change.holds w.changes id merged p
    rw [ha, holds_of_merge? a b merged hm, Option.toList_some, List.flatMap_singleton] at hinsert
    simp only [reply, holds, List.countP_append, List.flatMap_cons, List.flatMap_nil, Task.holds,
      List.countP_nil]
    omega

theorem watch_sound {script : List Step} (h : w.Sound rest told) (hn : .node n ∈ rest ++ w.holds) :
    Next.Sound rest told (w.watch id n script) := by
  have hlt := Graph.lt_size_of_owners_pos (h.accounts.node_live hn)
  have hsubscribed := Graph.Sound.subscribe h hlt (.callback w.watches.size)
  rw [watch]
  exact reply_sound (keepTicket_sound (w := { w with
    graph := (w.graph.subscribe n (.callback w.watches.size)).2
    watches := w.watches.push ⟨id, script⟩ }) hsubscribed) _

end Workspace

end FormulaGraph
