import FormulaGraph.Proofs.Enrolling

/-! How many listen to a node. Whoever reads it listens to it once for each time that it does, and so does the
callback of each watch on it; nobody else does. -/

namespace FormulaGraph

open FormulaGraph.Graph

theorem total_countP {α β : Type} (f : α → List β) (p : β → Bool) (xs : List α) :
    total (xs.map fun x => (f x).countP p) = (xs.flatMap f).countP p := by
  induction xs with
  | nil => rfl
  | cons x xs ih => rw [List.map_cons, total, ih, List.flatMap_cons, List.countP_append]

/-- The positions at which something is to be found. -/
theorem length_filter_range {α : Type} (xs : List α) (p : α → Bool) :
    ((List.range xs.length).filter fun i => xs[i]?.any p).length = xs.countP p := by
  induction xs using List.reverseRecOn with
  | nil => rfl
  | append_singleton xs x ih =>
    have hbefore : ∀ i ∈ List.range xs.length, (xs ++ [x])[i]?.any p = xs[i]?.any p := fun i hi => by
      rw [List.getElem?_append_left (List.mem_range.mp hi)]
    rw [List.length_append, List.length_singleton, List.range_succ, List.filter_append,
      List.filter_congr hbefore, List.length_append, ih, List.countP_append]
    by_cases hx : p x = true <;> simp [hx]

namespace Node

def operands : Node → List NodeId
  | .calculation _ operands _ _ => operands
  | _ => []

/-- What the formula comes to. -/
def root? : Node → Option NodeId
  | .expression _ source => source.tree?.map Tree.root
  | _ => none

theorem dependencies_eq (node : Node) : node.dependencies = node.operands ++ node.root?.toList := by
  cases node with
  | constant | input | calculation => simp [dependencies, operands, root?]
  | expression scope source => cases h : source.tree? <;> simp [dependencies, operands, root?, h]

end Node

mutual

theorem Member.ne_ticket {t : Ticket} (member : Member) : .ticket t ∉ member.holds := by
  cases member with
  | node | record => simp [Member.holds]
  | list items =>
    rw [Member.holds]
    exact Member.ne_ticket_all items

theorem Member.ne_ticket_all {t : Ticket} (items : List Member) : .ticket t ∉ Member.holdsAll items := by
  cases items with
  | nil => simp [Member.holdsAll]
  | cons item items =>
    rw [Member.holdsAll, List.mem_append]
    exact fun h => h.elim (Member.ne_ticket item) (Member.ne_ticket_all items)

end

/-- Records do not listen. -/
theorem Record.ne_ticket {t : Ticket} (r : Record) : .ticket t ∉ r.claims := by
  rw [Record.claims]
  split
  · exact List.not_mem_nil
  · rw [Record.holds, List.mem_append, List.mem_flatMap]
    rintro (⟨entry, -, h⟩ | h)
    · exact Member.ne_ticket entry.2 h
    · obtain ⟨r, -, he⟩ := List.mem_map.mp h
      cases he

/-- The slot at which it listens to the node. -/
def Hold.slotWith (n : NodeId) : Hold → Option Nat
  | .ticket t => if t.source = n then some t.slot else none
  | _ => none

theorem Hold.slotWith_eq_some {n : NodeId} {i : Nat} {x : Hold} :
    x.slotWith n = some i ↔ ∃ t : Ticket, x = .ticket t ∧ t.source = n ∧ t.slot = i := by
  cases x with
  | node | record => simp [slotWith]
  | ticket t => simp [slotWith, and_comm]

namespace Graph

variable {g : Graph} {n m : NodeId} {ext : List Hold} {k : Nat} {l : Listener} {t : Ticket} {x : Hold}
  {p : Hold → Bool}

/-- All that is held. -/
def held (g : Graph) (ext : List Hold) : List Hold :=
  g.cells.toList.flatMap Cell.claims ++ g.records.toList.flatMap Record.claims ++ ext

theorem countP_held : (g.held ext).countP p = g.tally p + ext.countP p := by
  rw [held, List.countP_append, List.countP_append, tally, total_countP, total_countP]

theorem Accounts.registered_of_mem (h : g.Accounts ext) (hmem : .ticket t ∈ g.held ext) :
    ∃ l, g.Registered t l := by
  refine h.registered t ?_
  rw [← countP_held]
  exact countP_pos_of_mem hmem

theorem mem_held_of_live {x : Hold} (hm : 0 < (g.cell m).owners) (hx : x ∈ (g.node m).holds) :
    x ∈ g.held ext := by
  refine List.mem_append_left _ (List.mem_append_left _ (List.mem_flatMap.mpr ⟨g.cell m, ?_,
    Cell.mem_claims.mpr ⟨hm, hx⟩⟩))
  have hlt := lt_size_of_owners_pos hm
  simp [cell, hlt]

/-- The slots at which something is held to listen to the node. -/
def slotsHeld (g : Graph) (ext : List Hold) (n : NodeId) : List Nat := (g.held ext).filterMap (Hold.slotWith n)

theorem mem_slotsHeld {i : Nat} :
    i ∈ g.slotsHeld ext n ↔ ∃ t : Ticket, .ticket t ∈ g.held ext ∧ t.source = n ∧ t.slot = i := by
  simp only [slotsHeld, List.mem_filterMap, Hold.slotWith_eq_some]
  exact ⟨fun ⟨_, hx, t, he, ht⟩ => ⟨t, he ▸ hx, ht⟩, fun ⟨t, hx, ht⟩ => ⟨_, hx, t, rfl, ht⟩⟩

/-- No place is had twice. -/
theorem Accounts.nodup_slotsHeld (h : g.Accounts ext) (n : NodeId) : (g.slotsHeld ext n).Nodup := by
  refine List.nodup_iff_count_le_one.mpr fun i => ?_
  have hat : ∀ x : Hold, (x.slotWith n == some i) = Hold.isAt n i x := fun x => by
    cases x with
    | node | record => rfl
    | ticket t => by_cases ht : t.source = n <;> simp [Hold.slotWith, Hold.isAt, ht]
  rw [slotsHeld, List.count_filterMap, List.countP_congr fun x _ => by rw [hat x], countP_held]
  exact h.places n i

/-- The slots of those who hear when the node is told of a change. -/
def slotsHeard (g : Graph) (n : NodeId) : List Nat :=
  (List.range (g.cell n).listeners.slots.size).filter fun i =>
    (g.cell n).listeners.slots[i]?.any fun slot => slot.listener.any g.hears

theorem mem_slotsHeard {i : Nat} :
    i ∈ g.slotsHeard n ↔ ∃ generation l, g.Registered ⟨n, i, generation⟩ l ∧ g.hears l = true := by
  rw [slotsHeard, List.mem_filter, List.mem_range]
  constructor
  · rintro ⟨-, hany⟩
    obtain ⟨⟨generation, listener⟩, hslot, hany⟩ := (Option.any_eq_true _ _).mp hany
    obtain ⟨l, rfl, hl⟩ := (Option.any_eq_true _ _).mp hany
    exact ⟨generation, l, hslot, hl⟩
  · rintro ⟨generation, l, hslot, hl⟩
    have hslot : (g.cell n).listeners.slots[i]? = some ⟨generation, some l⟩ := hslot
    refine ⟨(Array.getElem?_eq_some_iff.mp hslot).1, ?_⟩
    rw [hslot]
    exact hl

theorem length_slotsHeard : (g.slotsHeard n).length = (g.listening n).length := by
  calc (g.slotsHeard n).length
      = (g.cell n).listeners.slots.toList.countP fun slot => slot.listener.any g.hears := by
        rw [slotsHeard, ← length_filter_range]
        simp
    _ = (g.listening n).length := by
        rw [listening, Arena.listeners, ← List.countP_eq_length_filter, List.countP_filterMap]
        refine List.countP_congr fun slot _ => ?_
        cases slot.listener <;> simp

/-- Whoever hears has a place that is held, and whoever has one hears. -/
theorem length_listening (h : g.Accounts ext) (ha : g.Attended k) (hp : g.Present) (hn : 0 < (g.cell n).owners)
    (hcallbacks : ∀ t key, g.Registered t (.callback key) → t.source = n → .ticket t ∈ ext) :
    (g.listening n).length = g.tally (fun x => (x.slotWith n).isSome) + ext.countP fun x => (x.slotWith n).isSome := by
  have hsame : ∀ i, i ∈ g.slotsHeard n ↔ i ∈ g.slotsHeld ext n := fun i => by
    rw [mem_slotsHeard, mem_slotsHeld]
    constructor
    · rintro ⟨generation, l, hl, hhears⟩
      refine ⟨⟨n, i, generation⟩, ?_, rfl, rfl⟩
      cases l with
      | node m =>
        refine mem_held_of_live (of_decide_eq_true hhears) ?_
        rw [Node.holds_eq]
        exact List.mem_append_right _ (List.mem_map_of_mem (ha.node _ m hl))
      | callback key => exact List.mem_append_right _ (hcallbacks _ key hl rfl)
    · rintro ⟨⟨source, slot, generation⟩, hheld, rfl, rfl⟩
      obtain ⟨l, hl⟩ := h.registered_of_mem hheld
      refine ⟨generation, l, hl, ?_⟩
      cases l with
      | node m => exact decide_eq_true (hp _ m hl hn)
      | callback key => rfl
  have hnodup : (g.slotsHeard n).Nodup := List.nodup_range.filter _
  have hperm := (List.perm_ext_iff_of_nodup hnodup (h.nodup_slotsHeld n)).mpr hsame
  rw [← length_slotsHeard, hperm.length_eq, slotsHeld, List.length_filterMap_eq_countP, countP_held]

/-- The positions at which a live calculation has the node among its operands. -/
def operandPlacesIn (g : Graph) (n m : NodeId) : List (NodeId × Nat) :=
  if g.isLive m then
    ((List.range (g.node m).operands.length).filter fun i => (g.node m).operands[i]?.any (· == n)).map fun i => (m, i)
  else []

/-- The pairs of a live calculation and a position at which it has the node among its operands. -/
def operandPlaces (g : Graph) (n : NodeId) : List (NodeId × Nat) :=
  (List.range g.cells.size).flatMap (g.operandPlacesIn n)

/-- The live expressions whose formula comes to the node. -/
def rootPlaces (g : Graph) (n : NodeId) : List NodeId :=
  (List.range g.cells.size).filter fun m => g.isLive m && (g.node m).root?.any (· == n)

theorem length_operandPlacesIn (hm : 0 < (g.cell m).owners) :
    (g.operandPlacesIn n m).length = (g.node m).operands.count n := by
  rw [operandPlacesIn, if_pos (show g.isLive m = true from decide_eq_true hm), List.length_map, length_filter_range,
    List.count]

/-- A node has one ticket for each time that it reads the other. -/
theorem Accounts.countP_claims (h : g.Accounts ext) (n m : NodeId) :
    (g.cell m).claims.countP (fun x => (x.slotWith n).isSome) =
      (g.operandPlacesIn n m).length + (g.isLive m && (g.node m).root?.any (· == n)).toNat := by
  by_cases hm : 0 < (g.cell m).owners
  · have hlive : g.isLive m = true := decide_eq_true hm
    have htickets : (g.cell m).claims.countP (fun x => (x.slotWith n).isSome) = (g.dependencies m).count n := by
      rw [Cell.claims, if_neg (Nat.ne_of_gt hm), show (g.cell m).node = g.node m from rfl, Node.holds_eq,
        List.countP_append, List.countP_map, List.countP_map, ← h.sources m hm, List.count, List.countP_map]
      have hnone : (g.node m).dependencies.countP ((fun x => (x.slotWith n).isSome) ∘ Hold.node) = 0 :=
        List.countP_eq_zero.mpr fun d _ => Bool.false_ne_true
      rw [hnone, Nat.zero_add]
      refine List.countP_congr fun t _ => ?_
      by_cases ht : t.source = n <;> simp [Hold.slotWith, ht]
    rw [htickets, dependencies, Node.dependencies_eq, List.count_append, length_operandPlacesIn hm, hlive]
    cases (g.node m).root? with
    | none => rfl
    | some root => by_cases hroot : root = n <;> simp [hroot]
  · have hgone : (g.cell m).owners = 0 := Nat.eq_zero_of_not_pos hm
    have hlive : g.isLive m = false := by simp [isLive, hgone]
    rw [Cell.claims, if_pos hgone, operandPlacesIn, hlive]
    rfl

theorem Accounts.tally_slotWith (h : g.Accounts ext) (n : NodeId) :
    g.tally (fun x => (x.slotWith n).isSome) = (g.operandPlaces n).length + (g.rootPlaces n).length := by
  have hrecords : total (g.records.toList.map fun r => r.claims.countP fun x => (x.slotWith n).isSome) = 0 := by
    rw [total_countP, List.countP_eq_zero]
    intro x hx hsome
    obtain ⟨r, -, hx⟩ := List.mem_flatMap.mp hx
    obtain ⟨i, hi⟩ := Option.isSome_iff_exists.mp hsome
    obtain ⟨t, rfl, -⟩ := Hold.slotWith_eq_some.mp hi
    exact r.ne_ticket hx
  rw [tally, hrecords, toList_cells, List.map_map, operandPlaces, rootPlaces]
  induction List.range g.cells.size with
  | nil => rfl
  | cons m ms ih =>
    have hm := h.countP_claims n m
    rw [Nat.add_zero] at ih ⊢
    rw [List.map_cons, total, ih, Function.comp, hm, List.flatMap_cons, List.length_append, List.filter_cons]
    cases g.isLive m && (g.node m).root?.any (· == n) with
    | true => simp only [Bool.toNat_true, if_true, List.length_cons]; omega
    | false => simp only [Bool.toNat_false, Bool.false_eq_true, if_false]; omega

end Graph

namespace Workspace

variable {w : Workspace} {n : NodeId}

/-- The watches on the node that have not been given up. -/
def watchesOn (w : Workspace) (n : NodeId) : List String :=
  (w.tickets.toList.filter fun entry => entry.2.source == n).map (·.1)

theorem countP_holds_slotWith :
    w.holds.countP (fun x => (x.slotWith n).isSome) = (w.watchesOn n).length := by
  have hnone : ∀ xs : List Hold, (∀ t, .ticket t ∉ xs) → xs.countP (fun x => (x.slotWith n).isSome) = 0 :=
    fun xs hxs => List.countP_eq_zero.mpr fun x hx hsome => by
      obtain ⟨i, hi⟩ := Option.isSome_iff_exists.mp hsome
      obtain ⟨t, rfl, -⟩ := Hold.slotWith_eq_some.mp hi
      exact hxs t hx
  have htickets : (allOf (fun t => [Hold.ticket t]) w.tickets).countP (fun x => (x.slotWith n).isSome) =
      (w.watchesOn n).length := by
    rw [allOf, ← List.map_eq_flatMap, List.countP_map, watchesOn, List.length_map, ← List.countP_eq_length_filter]
    refine List.countP_congr fun entry _ => ?_
    by_cases ht : entry.2.source = n <;> simp [Hold.slotWith, ht]
  have hchanges : ∀ changes : List Change, ∀ t, .ticket t ∉ changes.flatMap Change.holds := fun changes t ht => by
    obtain ⟨change, -, hx⟩ := List.mem_flatMap.mp ht
    exact Change.ne_ticket hx t rfl
  rw [holds, List.countP_append, List.countP_append, List.countP_append, List.countP_append, htickets,
    hnone _ (by simp [allOf]), hnone _ (by simp [allOf]), hnone _ (hchanges _), hnone _ ?_]
  · omega
  · intro t ht
    obtain ⟨entry, -, hx⟩ := List.mem_flatMap.mp ht
    exact Change.ne_ticket hx t rfl

/-- As many listen to a node as there are tickets for places with it and watches on it. -/
theorem Enrolled.length_listening (he : w.Enrolled) (h : w.Sound [] []) (hn : 0 < (w.graph.cell n).owners) :
    (w.graph.listening n).length =
      w.graph.tally (fun x => (x.slotWith n).isSome) + (w.watchesOn n).length := by
  have hcallbacks : ∀ t key, w.graph.Registered t (.callback key) → t.source = n → .ticket t ∈ w.holds :=
    fun t key ht hsource => by
      obtain ⟨id, hid⟩ := he.ticketed t key ht (hsource ▸ hn)
      exact List.mem_append_right _ (List.mem_append_right _ (List.mem_append_left _
        (mem_allOf hid (List.mem_singleton_self _))))
  rw [Graph.length_listening h.accounts he.attended he.present hn hcallbacks, List.nil_append, countP_holds_slotWith]

/-- In every state that is reached, as many listen to a node that is left as there are operands of calculations
and formulas that it is, and watches on it; no formula that was tried, turned down or replaced has left anything
behind. -/
theorem listeners_of_run {limit : Nat} {steps : List Step}
    (h : Workspace.run limit {} (steps.map .perform) = some w) (hn : w.graph.isLive n = true) :
    (w.graph.stateOf n).listeners =
      (w.graph.operandPlaces n).length + (w.graph.rootPlaces n).length + (w.watchesOn n).length := by
  obtain ⟨hsound, henrolled⟩ := enrolled_of_run h
  rw [← hsound.accounts.tally_slotWith]
  exact henrolled.length_listening hsound (of_decide_eq_true hn)

/-- "e" reads "a" twice; a formula that reads it once more is turned down. -/
def turnedDownSteps : List Step :=
  [.record "r" none, .input "r" "a" "a" (.bool true), .expression "r" "e" "e" "!a && a", .read "e",
    .watch "w" "a" [.read "e"], .setFormula "e" "!a && a && (", .read "e", .set "a" (.bool false)]

theorem listeners_of_turnedDown :
    ∃ w n, Workspace.run 100 {} (turnedDownSteps.map .perform) = some w ∧ w.handles["a"]? = some n ∧
      w.graph.isLive n = true ∧ (w.graph.stateOf n).listeners = 3 ∧ (w.graph.operandPlaces n).length = 2 ∧
        (w.graph.rootPlaces n).length = 0 ∧ (w.watchesOn n).length = 1 := by
  have hread : ((Workspace.run 100 {} (turnedDownSteps.map .perform)).bind fun w =>
      w.handles["a"]?.map fun n => (w.graph.isLive n, (w.graph.operandPlaces n).length,
        (w.graph.rootPlaces n).length, (w.watchesOn n).length)) = some (true, 2, 0, 1) := by
    decide +kernel
  obtain ⟨w, hw, hread⟩ := Option.bind_eq_some_iff.mp hread
  obtain ⟨n, hn, hread⟩ := Option.map_eq_some_iff.mp hread
  simp only [Prod.mk.injEq] at hread
  obtain ⟨hlive, hoperands, hroots, hwatches⟩ := hread
  have hcount := listeners_of_run hw hlive
  rw [hoperands, hroots, hwatches] at hcount
  exact ⟨w, n, hw, hn, hlive, hcount, hoperands, hroots, hwatches⟩

end Workspace

end FormulaGraph
