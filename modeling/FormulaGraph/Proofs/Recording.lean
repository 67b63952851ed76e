import FormulaGraph.Proofs.Editing

/-! Records are populated, changed and given up. A member is taken over by its record, and the one it
replaces is given up. -/

namespace FormulaGraph

namespace Graph

variable {g g' : Graph} {ext : List Hold} {told : List NodeId} {n : NodeId} {r : RecordId} {name : String}
  {member : Member}

theorem Coherent.of_cells (h : g.Coherent told) (hcells : g'.cells = g.cells) : g'.Coherent told := by
  have hcell : ∀ m, g'.cell m = g.cell m := fun m => by rw [cell, hcells, cell]
  exact h.of_core (fun m => by rw [hcell]) fun m hm => by rwa [hcell] at hm

theorem record_push (record : Record) (s : RecordId) :
    Graph.record { g with records := g.records.push record } s =
      if s = g.records.size then record else g.record s := by
  simp only [Graph.record, Array.getElem?_push]
  split <;> rfl

/-- A new record holds its parent. -/
theorem Accounts.addRecord {parent : Option RecordId}
    (h : g.Accounts (parent.toList.map Hold.record ++ ext)) :
    Graph.Accounts { g with records := g.records.push { parent, owners := 1 } }
      (.record g.records.size :: ext) := by
  have hclaims : ∀ p, ((Record.claims { parent, owners := 1 }).countP p) =
      (parent.toList.map Hold.record).countP p := fun p => by
    rw [Record.claims, if_neg Nat.one_ne_zero, Record.holds, List.countP_append]
    simp
  have htally : ∀ p, Graph.tally { g with records := g.records.push { parent, owners := 1 } } p =
      g.tally p + (parent.toList.map Hold.record).countP p := by
    intro p
    have := hclaims p
    simp only [tally, Array.toList_push, List.map_append, total_append, List.map_cons, List.map_nil, total]
    omega
  have hne : ∀ p : Hold → Bool, p (.record g.records.size) = false →
      (.record g.records.size :: ext : List Hold).countP p = ext.countP p := fun p hp => by
    rw [List.countP_cons, hp]
    rfl
  have hsize : (g.record g.records.size).owners = 0 := by simp [Graph.record]
  have hsum : ∀ p, g.tally p + (parent.toList.map Hold.record).countP p + ext.countP p =
      g.tally p + (parent.toList.map Hold.record ++ ext).countP p := fun p => by
    rw [List.countP_append]
    omega
  exact
    { nodes := fun m => by
        rw [htally, hne _ rfl, hsum]
        exact h.nodes m
      records := fun s => by
        have hs := h.records s
        rw [← hsum] at hs
        rw [htally, List.countP_cons, record_push]
        by_cases he : s = g.records.size
        · rw [he] at hs ⊢
          rw [if_pos (beq_self_eq_true _), if_pos rfl]
          rw [hsize] at hs
          show _ ≤ 1
          omega
        · have hfalse : ¬ (Hold.record g.records.size == .record s) = true := by simpa using Ne.symm he
          rw [if_neg hfalse, if_neg he]
          exact hs
      places := fun source slot => by
        rw [htally, hne _ rfl, hsum]
        exact h.places source slot
      registered := fun t ht => by
        rw [htally, hne _ rfl, hsum] at ht
        exact h.registered t ht
      arenas := h.arenas
      listens := h.listens
      sources := h.sources }

theorem Sound.addRecord {parent : Option RecordId} (h : g.Sound ext told)
    (hparent : ∀ s, parent = some s → .record s ∈ ext) :
    (g.addRecord parent).2.Sound (.record (g.addRecord parent).1 :: ext) told := by
  have hretained : (g.retainAll (parent.toList.map .record)).Sound (parent.toList.map Hold.record ++ ext) told := by
    refine h.retainAll fun x hx => ?_
    obtain ⟨s, hs, rfl⟩ := List.mem_map.mp hx
    exact ⟨hparent s (Option.mem_toList.mp hs), fun _ he => by cases he⟩
  exact ⟨hretained.accounts.addRecord, hretained.coherent.of_cells rfl⟩

/-- A record that is alive has other members and gives some holds up for others. -/
theorem Sound.setMembers (change : Std.TreeMap String Member → Std.TreeMap String Member)
    (taken given : List Hold) (h : g.Sound (taken ++ ext) told) (hr : 0 < (g.record r).owners)
    (hcount : ∀ p, (allOf Member.holds (change (g.record r).members)).countP p + given.countP p ≤
      (allOf Member.holds (g.record r).members).countP p + taken.countP p) :
    (g.modifyRecord r fun record => { record with members := change record.members }).Sound
      (given ++ ext) told := by
  refine ⟨h.accounts.move (fun _ => ⟨rfl, rfl⟩) (fun s => ?_) (fun p => ?_) fun m hm => ?_,
    h.coherent.of_cells rfl⟩
  · rw [record_modifyRecord]
    split
    next he => rw [he.1]
    · rfl
  · have hclaims : ∀ record : Record, record.owners ≠ 0 → record.claims.countP p =
        (allOf Member.holds record.members).countP p + (record.parent.toList.map Hold.record).countP p := by
      intro record hne
      rw [Record.claims, if_neg hne, Record.holds, List.countP_append]
      rfl
    have htally := tally_modifyRecord (p := p) (f := fun record => { record with members := change record.members })
      (lt_records_size_of_owners_pos hr)
    have hnew : (Record.claims { g.record r with members := change (g.record r).members }).countP p =
        (allOf Member.holds (change (g.record r).members)).countP p +
          ((g.record r).parent.toList.map Hold.record).countP p := hclaims _ (Nat.ne_of_gt hr)
    rw [hclaims _ (Nat.ne_of_gt hr), hnew] at htally
    have := hcount p
    simp only [List.countP_append]
    omega
  · exact h.accounts.node_listens hm

theorem Sound.insert (member : Member) (h : g.Sound (member.holds ++ ext) told) (hr : 0 < (g.record r).owners) :
    (g.insert r name member).Sound ext told := by
  refine Sound.release (h.setMembers (·.insert name member) member.holds _ hr fun p => ?_)
  exact Nat.le_of_eq (countP_allOf_insert _ _ _ member p)

theorem Sound.remove (h : g.Sound ext told) (hr : 0 < (g.record r).owners) :
    (g.remove r name).Sound ext told := by
  refine Sound.release (Sound.setMembers (·.erase name) [] _ h hr fun p => ?_)
  exact Nat.le_of_eq (countP_allOf_erase _ _ _ p)

theorem holdsAll_append (items items' : List Member) :
    Member.holdsAll (items ++ items') = Member.holdsAll items ++ Member.holdsAll items' := by
  induction items with
  | nil => rfl
  | cons item items ih => rw [List.cons_append, Member.holdsAll, Member.holdsAll, ih, List.append_assoc]

theorem holdsAll_pushed (old : Option Member) (item : Member) :
    Member.holdsAll (pushed old item) = old.toList.flatMap Member.holds ++ item.holds := by
  rcases old with _ | ⟨n | s | items⟩
  · simp [pushed, Member.holdsAll]
  · simp [pushed, Member.holdsAll, Member.holds]
  · simp [pushed, Member.holdsAll, Member.holds]
  · simp [pushed, holdsAll_append, Member.holdsAll, Member.holds]

theorem Sound.push (h : g.Sound (member.holds ++ ext) told) (hr : 0 < (g.record r).owners) :
    (g.push r name member).2.Sound ext told := by
  refine Sound.setMembers (·.insert name (.list (pushed (g.member? r name) member))) member.holds [] h hr
    fun p => ?_
  have hinsert := countP_allOf_insert Member.holds (g.record r).members name
    (.list (pushed (g.member? r name) member)) p
  rw [Member.holds, holdsAll_pushed, List.countP_append, member?] at hinsert
  simp only [List.countP_nil]
  rw [member?]
  omega

theorem Sound.bind (h : g.Sound (.node n :: ext) told) (hr : 0 < (g.record r).owners) :
    (g.bind r name n).Sound (.node n :: ext) told := by
  have hretained := h.retain_node (h.accounts.node_live List.mem_cons_self)
  exact Sound.insert (.node n) hretained hr

end Graph

end FormulaGraph
