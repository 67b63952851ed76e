import FormulaGraph.Proofs.Keeping
import FormulaGraph.Proofs.Tables
import FormulaGraph.Proofs.Upkeep

/-! Reading keeps a graph sound. What is read is clean afterwards and has the value that was read. -/

namespace FormulaGraph

namespace Graph

variable {g g' : Graph} {ext : List Hold} {told : List NodeId} {n m : NodeId} {r : RecordId}

theorem holds_of_mem {items : List Member} {member : Member} (h : member ∈ items) :
    ∀ x ∈ member.holds, x ∈ Member.holdsAll items := by
  intro x hx
  induction items with
  | nil => cases h
  | cons item items ih =>
    rw [Member.holdsAll]
    cases h with
    | head => exact List.mem_append_left _ hx
    | tail _ h => exact List.mem_append_right _ (ih h)

theorem holds_of_getElem? {record : Record} {name : String} {member : Member}
    (h : record.members[name]? = some member) : ∀ x ∈ member.holds, x ∈ record.holds := by
  intro x hx
  refine List.mem_append_left _ (List.mem_flatMap.mpr ⟨(name, member), ?_, hx⟩)
  exact Std.TreeMap.mem_toList_iff_getElem?_eq_some.mpr h

theorem parent_held {parent : RecordId} (hp : (g.record r).parent = some parent) :
    Hold.record parent ∈ (g.record r).holds := by
  refine List.mem_append_right _ ?_
  rw [hp]
  exact List.mem_singleton_self _

theorem parent_live (h : g.Accounts ext) (hr : 0 < (g.record r).owners) {parent : RecordId}
    (hp : (g.record r).parent = some parent) : 0 < (g.record parent).owners := by
  have := tally_pos_of_record hr (parent_held hp)
  have := h.records parent
  omega

/-- What is found in a live record is held by a live record, one of those that records of `P` hold. -/
theorem find?_held (h : g.Accounts ext) {P : RecordId → Prop} {name : String} {member : Member}
    (hP : ∀ r r', P r → 0 < (g.record r).owners → .record r' ∈ (g.record r).holds → P r') (hr : 0 < (g.record r).owners)
    (hPr : P r) (hf : g.find? r name = some member) :
    ∃ s, P s ∧ 0 < (g.record s).owners ∧ ∀ x ∈ member.holds, x ∈ (g.record s).holds := by
  fun_induction find? g r name with
  | case1 r found hfound =>
    cases hf
    exact ⟨r, hPr, hr, holds_of_getElem? hfound⟩
  | case2 r hnone parent hp hlt ih => exact ih (parent_live h hr hp) (hP r parent hPr hr (parent_held hp)) hf
  | case3 => cases hf
  | case4 => cases hf

theorem resolve?_held_in (h : g.Accounts ext) {P : RecordId → Prop} {name : String} {member : Member}
    (hP : ∀ r r', P r → 0 < (g.record r).owners → .record r' ∈ (g.record r).holds → P r') (hr : 0 < (g.record r).owners)
    (hPr : P r) (hf : g.resolve? r name = some member) :
    ∃ s, P s ∧ 0 < (g.record s).owners ∧ ∀ x ∈ member.holds, x ∈ (g.record s).holds := by
  rw [resolve?] at hf
  split at hf
  next found hfound =>
    cases hf
    exact find?_held h hP hr hPr hfound
  next =>
    obtain ⟨⟨base, index⟩, -, hf⟩ := Option.bind_eq_some_iff.mp hf
    obtain ⟨listed, hlisted, hf⟩ := Option.bind_eq_some_iff.mp hf
    obtain ⟨s, hPs, hs, hsub⟩ := find?_held h hP hr hPr hlisted
    cases listed with
    | node | record => cases hf
    | list items =>
      refine ⟨s, hPs, hs, fun x hx => hsub x ?_⟩
      exact holds_of_mem (List.mem_of_getElem? hf) x hx

theorem resolve?_held (h : g.Accounts ext) {name : String} {member : Member}
    (hr : 0 < (g.record r).owners) (hf : g.resolve? r name = some member) :
    ∃ s, 0 < (g.record s).owners ∧ ∀ x ∈ member.holds, x ∈ (g.record s).holds := by
  obtain ⟨s, -, hs, hsub⟩ := resolve?_held_in (P := fun _ => True) h (fun _ _ _ _ _ => trivial) hr trivial hf
  exact ⟨s, hs, hsub⟩

theorem live_of_resolve? (h : g.Accounts ext) {name : String} (hr : 0 < (g.record r).owners)
    (hf : g.resolve? r name = some (.node n)) : 0 < (g.cell n).owners := by
  obtain ⟨s, hs, hsub⟩ := resolve?_held h hr hf
  have := tally_pos_of_record hs (hsub (.node n) (List.mem_singleton_self _))
  have := h.nodes n
  omega

theorem recordLive_of_resolve? (h : g.Accounts ext) {name : String} {s : RecordId}
    (hr : 0 < (g.record r).owners) (hf : g.resolve? r name = some (.record s)) :
    0 < (g.record s).owners := by
  obtain ⟨s', hs', hsub⟩ := resolve?_held h hr hf
  have := tally_pos_of_record hs' (hsub (.record s) (List.mem_singleton_self _))
  have := h.records s
  omega

end Graph

/-- What is read is clean afterwards, and everything else is as sound as before. -/
def Reads (read : Reader) : Prop :=
  ∀ {g : Graph} {ext : List Hold} {told : List NodeId} {n : NodeId}, g.Sound ext told →
    g.Anchored ext n →
      ((read n).run.run g).2.Sound ext told ∧ g.Grows ((read n).run.run g).2 ∧
        ∀ v, ((read n).run.run g).1 = .ok v →
          (((read n).run.run g).2.cell n).dirty = false ∧ (((read n).run.run g).2.cell n).cache = some v

/-- Sound with the nodes that are held meanwhile, and grown from `g`. -/
def Graph.Holding (g : Graph) (ext : List Hold) (told : List NodeId) (nodes : List NodeId) (g' : Graph) :
    Prop :=
  g'.Sound (nodes.map .node ++ ext) told ∧ g.Grows g'

theorem Graph.Anchored.held {g : Graph} {ext : List Hold} {nodes : List NodeId} {n : NodeId} (hn : n ∈ nodes) :
    g.Anchored (nodes.map .node ++ ext) n :=
  .outside (List.mem_append_left _ (List.mem_map_of_mem hn))

theorem isRecord_of_mem_nodes (nodes : List NodeId) : ∀ x ∈ nodes.map Hold.node, x.isRecord = false := by
  simp [Hold.isRecord]

/-- The calculation is held in place of its operands. -/
theorem Graph.Holding.addCalculation {g s : Graph} {ext : List Hold} {told operands nodes : List NodeId}
    (h : g.Holding ext told (operands ++ nodes) s) (operation : Operation) (offset : Nat) :
    (s.addCalculation operation operands offset).2.Sound
        (.node (s.addCalculation operation operands offset).1 :: (nodes.map .node ++ ext)) told ∧
      s.Grows (s.addCalculation operation operands offset).2 := by
  have hsound := h.1
  rw [List.map_append, List.append_assoc] at hsound
  exact hsound.addCalculation operation offset

theorem run_calculate (read : Reader) (operation : Operation) (operands : List NodeId) (offset : Nat)
    (g : Graph) :
    ((graphBuilder read).calculate operation operands offset).run g =
      match (read (g.addCalculation operation operands offset).1).run.run
          (g.addCalculation operation operands offset).2 with
      | (.ok _, g') => (.ok (g.addCalculation operation operands offset).1, g')
      | (.error e, g') => (.error e, g'.release [.node (g.addCalculation operation operands offset).1]) := by
  unfold graphBuilder
  dsimp only
  rw [StateT.run_bind, StateT.run_modifyGet, pure_bind, StateT.run_bind]
  rcases (read (g.addCalculation operation operands offset).1).run.run
    (g.addCalculation operation operands offset).2 with ⟨r, g'⟩
  cases r <;> rfl

theorem run_kind (read : Reader) (n : NodeId) (g : Graph) :
    ((graphBuilder read).kind n).run g =
      (((read n).run.run g).1.map Value.kind, ((read n).run.run g).2) := rfl

theorem run_resolve (read : Reader) (r : RecordId) (name : String) (g : Graph) :
    ((graphBuilder read).resolve r name).run g =
      match g.resolve? r name with
      | some (.node n) => (some (.value n), g.retain (.node n))
      | some (.record s) => (some (.scope s), g)
      | some (.list _) => (some .list, g)
      | none => (none, g) := by
  unfold graphBuilder
  dsimp only
  rw [StateT.run_bind, StateT.run_get, pure_bind]
  dsimp only
  rcases g.resolve? r name with _ | ⟨n | s | items⟩ <;> rfl

theorem graphBuilder_keeps {read : Reader} (hread : Reads read) (g : Graph) (ext : List Hold)
    (told : List NodeId) :
    (graphBuilder read).Keeps (g.Holding ext told) fun r => 0 < (g.record r).owners where
  recount hcount h := by
    refine ⟨h.1.mono fun p => ?_, h.2⟩
    have := hcount (p ∘ .node)
    simp only [List.countP_append, List.countP_map]
    omega
  literal v h := ⟨h.1.addConstant v, h.2.trans (Graph.grows_addCell _ _)⟩
  calculate {arguments l s} operation offset h := by
    obtain ⟨hadded, hgrown⟩ := h.addCalculation operation offset
    obtain ⟨hsound, hgrows, -⟩ := hread hadded (.outside List.mem_cons_self)
    rw [run_calculate]
    generalize s.addCalculation operation arguments offset = added at hadded hgrown hsound hgrows
    rcases hr : (read added.1).run.run added.2 with ⟨r, g'⟩
    rw [hr] at hsound hgrows
    have hgrown := (h.2.trans hgrown).trans hgrows
    cases r with
    | ok => exact ⟨hsound, hgrown⟩
    | error => exact ⟨hsound.release_node, hgrown.trans Graph.grows_release_node⟩
  kind {a l s} hmem h := by
    obtain ⟨hread, hgrows, -⟩ := hread h.1 (.held hmem)
    exact ⟨hread, h.2.trans hgrows⟩
  resolve {r l s} name hr h := by
    have hr' := h.2.record_live hr
    rw [run_resolve]
    rcases hf : s.resolve? r name with _ | ⟨n | r' | items⟩
    · exact ⟨h, fun _ he => by cases he⟩
    · refine ⟨⟨h.1.retain_node ?_, h.2.trans Graph.grows_retain_node⟩, fun _ he => by cases he⟩
      exact Graph.live_of_resolve? h.1.accounts hr' hf
    · refine ⟨h, fun r'' he => ?_⟩
      cases he
      have hlive := Graph.recordLive_of_resolve? h.1.accounts hr' hf
      rw [Graph.record, h.2.records] at hlive
      exact hlive
    · exact ⟨h, fun _ he => by cases he⟩
  discard {as l s} h := by
    have hsound := h.1
    rw [List.map_append, List.append_assoc] at hsound
    exact ⟨hsound.release, h.2.trans (Graph.grows_release (isRecord_of_mem_nodes as))⟩

/-- A node that is built is held, and nothing else is that was not before. -/
theorem parse_sound {read : Reader} (hread : Reads read) {g : Graph} {ext : List Hold} {told : List NodeId}
    {r : RecordId} (h : g.Sound ext told) (hr : g.scopeIsLive r = true) (text : String) :
    match ((graphBuilder read).parse r text).run g with
    | (.ok root, g') => g'.Sound (.node root :: ext) told ∧ g.Grows g'
    | (.error _, g') => g'.Sound ext told ∧ g.Grows g' := by
  have hlive : 0 < (g.record r).owners := by simpa [Graph.scopeIsLive] using hr
  have hparse := (graphBuilder_keeps hread g ext told).parse (l := []) hlive text ⟨h, .refl g⟩
  generalize ((graphBuilder read).parse r text).run g = parsed at hparse ⊢
  rcases parsed with ⟨e | root, g'⟩
  · exact hparse
  · exact hparse

end FormulaGraph
