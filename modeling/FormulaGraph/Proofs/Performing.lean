import FormulaGraph.Proofs.Custody

/-! Every step of a workspace keeps its graph sound, whatever else is held and still to be told. -/

namespace FormulaGraph

theorem mem_of_mapM {α β ε : Type} {f : α → Except ε β} {xs : List α} {ys : List β}
    (h : xs.mapM f = .ok ys) : ∀ y ∈ ys, ∃ x ∈ xs, f x = .ok y := by
  induction xs generalizing ys with
  | nil =>
    cases h
    exact fun _ hy => (List.not_mem_nil hy).elim
  | cons x xs ih =>
    rw [List.mapM_cons] at h
    cases hx : f x with
    | error e =>
      rw [hx] at h
      cases h
    | ok y =>
      rw [hx] at h
      cases hxs : xs.mapM f with
      | error e =>
        rw [hxs] at h
        cases h
      | ok rest =>
        rw [hxs] at h
        cases h
        intro z hz
        cases hz with
        | head => exact ⟨x, List.mem_cons_self, hx⟩
        | tail _ hz =>
          obtain ⟨x', hx', he⟩ := ih hxs z hz
          exact ⟨x', List.mem_cons_of_mem _ hx', he⟩

namespace Workspace

variable {w : Workspace} {rest : List Hold} {told : List NodeId} {n : NodeId} {r : RecordId}

/-- Only the graph is another one, and holds besides what it held before. -/
def Makes (w : Workspace) (rest : List Hold) (told : List NodeId) (made : List Hold) (w' : Workspace) : Prop :=
  ∃ g, w' = { w with graph := g } ∧ g.Sound (made ++ (rest ++ w.holds)) told

theorem Makes.trans {made made' : List Hold} {w' w'' : Workspace} (h : w.Makes rest told made w')
    (h' : ∀ rest', w'.Sound rest' told → w'.Makes rest' told made' w'') :
    w.Makes rest told (made ++ made') w'' := by
  obtain ⟨g, rfl, hg⟩ := h
  obtain ⟨g', rfl, hg'⟩ := h' (made ++ rest) (by rwa [Workspace.Sound, List.append_assoc])
  refine ⟨g', rfl, hg'.perm ?_⟩
  have hcomm : (made' ++ made).Perm (made ++ made') := List.perm_append_comm
  have hperm := hcomm.append_right (rest ++ w.holds)
  rw [List.append_assoc] at hperm
  rw [List.append_assoc]
  exact hperm

mutual

theorem makeMember_sound (new : NewMember) {w w' : Workspace} {rest : List Hold} {member : Member}
    (h : w.Sound rest told) (hm : w.makeMember new = .ok (member, w')) : w.Makes rest told member.holds w' := by
  cases new with
  | node id =>
    rw [makeMember] at hm
    cases hn : w.nodeNamed id with
    | error id => rw [hn] at hm; cases hm
    | ok n =>
      rw [hn] at hm
      cases hm
      exact ⟨_, rfl, Graph.Sound.retain_node h (h.accounts.node_live (h.node_mem hn))⟩
  | record id =>
    rw [makeMember] at hm
    cases hr : w.recordNamed id with
    | error id => rw [hr] at hm; cases hm
    | ok r =>
      rw [hr] at hm
      cases hm
      exact ⟨_, rfl, Graph.Sound.retain_record h (h.record_live hr)⟩
  | constant value =>
    rw [makeMember] at hm
    cases hm
    exact ⟨_, rfl, Graph.Sound.addConstant h value⟩
  | list items =>
    rw [makeMember] at hm
    cases hi : w.makeMembers items with
    | error id => rw [hi] at hm; cases hm
    | ok made =>
      rw [hi] at hm
      cases hm
      exact makeMembers_sound items h hi

theorem makeMembers_sound (items : List NewMember) {w w' : Workspace} {rest : List Hold}
    {members : List Member} (h : w.Sound rest told) (hm : w.makeMembers items = .ok (members, w')) :
    w.Makes rest told (Member.holdsAll members) w' := by
  cases items with
  | nil =>
    rw [makeMembers] at hm
    cases hm
    exact ⟨w.graph, rfl, h⟩
  | cons item items =>
    rw [makeMembers] at hm
    cases hi : w.makeMember item with
    | error id => rw [hi] at hm; cases hm
    | ok first =>
      obtain ⟨member, w₁⟩ := first
      rw [hi] at hm
      cases hr : w₁.makeMembers items with
      | error id =>
        simp only [bind, Except.bind, hr] at hm
        cases hm
      | ok others =>
        obtain ⟨members, w₂⟩ := others
        simp only [bind, Except.bind, hr] at hm
        cases hm
        exact (makeMember_sound item h hi).trans fun _ h₁ => makeMembers_sound items h₁ hr

end

theorem nodesNamed_mem {edits : List (String × String)} {named : List (NodeId × String)}
    (h : w.nodesNamed edits = .ok named) : ∀ e ∈ named, .node e.1 ∈ w.holds := by
  intro e he
  obtain ⟨⟨id, text⟩, -, hedit⟩ := mem_of_mapM h e he
  cases hn : w.nodeNamed id with
  | error id => simp [bind, Except.bind, hn] at hedit
  | ok n =>
    simp only [bind, Except.bind, hn] at hedit
    cases hedit
    exact nodeNamed_mem hn

theorem makeChange_sound (new : NewChange) {made : Edited Change} {w' : Workspace} (h : w.Sound rest told)
    (hm : w.makeChange new = .ok (made, w')) :
    ∃ g, w' = { w with graph := g } ∧ Graph.ChangeSound (rest ++ w.holds) told (made, g) := by
  cases new with
  | prepared id =>
    rw [makeChange] at hm
    cases hc : w.changeNamed id with
    | error id => rw [hc] at hm; cases hm
    | ok change =>
      rw [hc] at hm
      cases hm
      refine ⟨_, rfl, Graph.Sound.retainAll h fun x hx => ⟨?_, Change.ne_ticket hx⟩⟩
      exact List.mem_append_right _ (mem_holds_of_change (getElem?_of_changeNamed hc) hx)
  | marker name =>
    cases hm
    exact ⟨w.graph, rfl, h⟩
  | formulas edits =>
    rw [makeChange] at hm
    cases he : w.nodesNamed edits with
    | error id => rw [he] at hm; cases hm
    | ok named =>
      rw [he] at hm
      cases hm
      refine ⟨_, rfl, Graph.formulaChange_sound h fun e he' => ?_⟩
      exact List.mem_append_right _ (nodesNamed_mem he e he')
  | value id value =>
    rw [makeChange] at hm
    cases hn : w.nodeNamed id with
    | error id => rw [hn] at hm; cases hm
    | ok n =>
      rw [hn] at hm
      cases hm
      exact ⟨_, rfl, Graph.valueChange_sound h (h.node_mem hn) value⟩

theorem addExpressions_sound {g : Graph} {ext : List Hold} (h : g.Sound ext told) (hr : .record r ∈ ext)
    (stem formula : String) (count : Nat) : (addExpressions g r stem formula count).Sound ext told := by
  rw [addExpressions]
  induction List.range count generalizing g with
  | nil => exact h
  | cons i is ih =>
    have hadded := h.addExpression r (String.ofList (fillIn (toString i).toList formula.toList))
    refine ih (Graph.Sound.insert (.node _) hadded ?_)
    exact hadded.accounts.record_live (List.mem_cons_of_mem _ hr)

theorem dropNode_sound {id : String} (h : w.Sound rest told) (hn : w.handles[id]? = some n) :
    Workspace.Sound { w with handles := w.handles.erase id, graph := w.graph.release [.node n] } rest told := by
  refine Graph.Sound.release (h.mono fun p => ?_)
  have herase := countP_allOf_erase (fun n => [Hold.node n]) w.handles id p
  rw [hn, Option.toList_some, List.flatMap_singleton] at herase
  simp only [holds, List.countP_append] at herase ⊢
  omega

theorem dropRecord_sound {id : String} (h : w.Sound rest told) (hr : w.records[id]? = some r) :
    Workspace.Sound { w with records := w.records.erase id, graph := w.graph.release [.record r] } rest told := by
  refine Graph.Sound.release (h.mono fun p => ?_)
  have herase := countP_allOf_erase (fun r => [Hold.record r]) w.records id p
  rw [hr, Option.toList_some, List.flatMap_singleton] at herase
  simp only [holds, List.countP_append] at herase ⊢
  omega

theorem unwatch_sound {id : String} {t : Ticket} (h : w.Sound rest told) (ht : w.tickets[id]? = some t) :
    Workspace.Sound { w with tickets := w.tickets.erase id, graph := w.graph.unsubscribe t } rest told := by
  have hone : w.graph.release [.ticket t] = w.graph.unsubscribe t := by rw [Graph.release, Graph.release]
  rw [← hone]
  refine Graph.Sound.release (h.mono fun p => ?_)
  have herase := countP_allOf_erase (fun t => [Hold.ticket t]) w.tickets id p
  rw [ht, Option.toList_some, List.flatMap_singleton] at herase
  simp only [holds, List.countP_append] at herase ⊢
  omega

theorem member?_live {ext : List Hold} {g : Graph} {name : String} (h : g.Accounts ext)
    (hr : 0 < (g.record r).owners) (hn : (g.member? r name).bind Member.node? = some n) :
    0 < (g.cell n).owners := by
  obtain ⟨member, hmember, hnode⟩ := Option.bind_eq_some_iff.mp hn
  cases member with
  | node k =>
    cases hnode
    have := Graph.tally_pos_of_record hr
      (Graph.holds_of_getElem? hmember (.node n) (List.mem_singleton_self _))
    have := h.nodes n
    omega
  | record | list => cases hnode

theorem changes_named {ids : List String} {changes : List Change} (h : ids.mapM w.changeNamed = .ok changes) :
    ∀ change ∈ changes, ∃ id : String, w.changes[id]? = some change := by
  intro change hchange
  obtain ⟨id, -, hid⟩ := mem_of_mapM h change hchange
  exact ⟨id, getElem?_of_changeNamed hid⟩

theorem parent_mem {parent : Option String} {s : Option RecordId} (h : parent.mapM w.recordNamed = .ok s) :
    ∀ r, s = some r → .record r ∈ rest ++ w.holds := by
  rintro r rfl
  cases parent with
  | none => cases h
  | some id =>
    cases hr : w.recordNamed id with
    | error e =>
      have herror : (some id).mapM w.recordNamed = .error e := congrArg (some <$> ·) hr
      rw [herror] at h
      cases h
    | ok r' =>
      have hok : (some id).mapM w.recordNamed = .ok (some r') := congrArg (some <$> ·) hr
      rw [hok] at h
      cases h
      exact List.mem_append_right _ (recordNamed_mem hr)

/-- By the shape of the step. What a step does is taken apart in the lemmas before. -/
theorem perform_sound (step : Step) (h : w.Sound rest told) : KnownSound rest told (w.perform step) := by
  cases step with
  | record id parent =>
    refine .bind fun parent hparent => ?_
    exact reply_sound (keepRecord_sound (w := { w with graph := (w.graph.addRecord parent).2 })
      (Graph.Sound.addRecord h (parent_mem hparent))) _
  | input scope name id value =>
    refine .bind fun r hr => ?_
    exact bindMade_sound (Graph.Sound.addInput h value) (List.mem_append_right _ (recordNamed_mem hr))
  | expression scope name id formula =>
    refine .bind fun r hr => ?_
    exact bindMade_sound (Graph.Sound.addExpression h r formula) (List.mem_append_right _ (recordNamed_mem hr))
  | expressions scope stem count formula =>
    refine .bind fun r hr => ?_
    exact reply_sound (w := { w with graph := addExpressions w.graph r stem formula count })
      (addExpressions_sound h (List.mem_append_right _ (recordNamed_mem hr)) stem formula count) _
  | insert scope name member =>
    refine .bind fun r hr => .bind fun made hm => ?_
    obtain ⟨member, w'⟩ := made
    obtain ⟨g, rfl, hg⟩ := makeMember_sound _ h hm
    exact reply_sound (w := { w with graph := g.insert r name member })
      (hg.insert member (hg.accounts.record_live (List.mem_append_right _
        (List.mem_append_right _ (recordNamed_mem hr))))) _
  | push scope name member =>
    refine .bind fun r hr => .bind fun made hm => ?_
    obtain ⟨member, w'⟩ := made
    obtain ⟨g, rfl, hg⟩ := makeMember_sound _ h hm
    exact reply_sound (w := { w with graph := (g.push r name member).2 })
      (hg.push (hg.accounts.record_live (List.mem_append_right _
        (List.mem_append_right _ (recordNamed_mem hr))))) _
  | remove scope name =>
    refine .bind fun r hr => ?_
    exact reply_sound (w := { w with graph := w.graph.remove r name })
      (Graph.Sound.remove h (h.record_live hr)) _
  | get scope name => exact .bind fun r _ => reply_sound h _
  | find scope name => exact .bind fun r _ => reply_sound h _
  | resolve scope name => exact .bind fun r _ => reply_sound h _
  | names scope => exact .bind fun r _ => reply_sound h _
  | listing scope => exact .bind fun r _ => reply_sound h _
  | handle scope name id =>
    refine .bind fun r hr => ?_
    split
    next n hn =>
      exact keepMade_sound (Graph.Sound.retain_node h (member?_live h.accounts (h.record_live hr) hn))
    next => exact reply_sound h _
  | freeConstant id value => exact keepMade_sound (Graph.Sound.addConstant h value)
  | freeInput id value => exact keepMade_sound (Graph.Sound.addInput h value)
  | freeExpression id scope formula =>
    exact .bind fun r _ => keepMade_sound (Graph.Sound.addExpression h r formula)
  | parse id scope formula =>
    refine .bind fun r hr => ?_
    have hparsed := parse_sound readNode_reads h (r := r)
      (by simpa [Graph.scopeIsLive] using h.record_live hr) formula
    split
    next n g hp =>
      rw [Graph.parse] at hp
      rw [hp] at hparsed
      exact keepMade_sound hparsed.1
    next e g hp =>
      rw [Graph.parse] at hp
      rw [hp] at hparsed
      exact reply_sound (w := { w with graph := g }) hparsed.1 _
  | clone source id =>
    refine .bind fun n hn => ?_
    exact keepMade_sound (Graph.Sound.retain_node h (h.accounts.node_live (h.node_mem hn)))
  | dropNode id =>
    rw [perform]
    split
    next n hn => exact reply_sound (dropNode_sound h hn) _
    next => exact reply_sound h _
  | dropRecord id =>
    rw [perform]
    split
    next r hr => exact reply_sound (dropRecord_sound h hr) _
    next => exact reply_sound h _
  | read id =>
    refine .bind fun n hn => ?_
    exact reply_sound (w := { w with graph := (w.graph.read n).2 })
      (Graph.read_sound h (.outside (h.node_mem hn))) _
  | set id value =>
    exact .bind fun n hn => edit_sound h (Graph.setInput_sound h n value) (h.node_mem hn)
  | setFormula id formula =>
    exact .bind fun n hn => edit_sound h (Graph.setFormula_sound h n formula) (h.node_mem hn)
  | check id formula => exact .bind fun n _ => checked_sound (Graph.checkFormula_sound h n formula)
  | checkAll edits => exact .bind fun edits _ => checked_sound (Graph.checkFormulas_sound h edits)
  | state id => exact .bind fun n _ => reply_sound h _
  | states => exact reply_sound h _
  | depends a b => exact .bind fun m _ => .bind fun n _ => reply_sound h _
  | same a b => exact .bind fun m _ => .bind fun n _ => reply_sound h _
  | watch id source script => exact .bind fun n hn => watch_sound h (h.node_mem hn)
  | unwatch id =>
    rw [perform]
    split
    next t ht => exact reply_sound (unwatch_sound h ht) _
    next => exact reply_sound h _
  | ticket id => exact reply_sound h _
  | openBatch =>
    exact keepBooks_sound [] h fun _ => Nat.le_of_eq (History.balance_openBatch _)
  | closeBatch => exact keepBooks_sound [] h fun _ => History.balance_closeBatch _
  | abandonBatch => exact keepBooks_sound [] h fun _ => History.balance_abandonBatch _
  | markSaved =>
    exact keepBooks_sound [] h fun _ => Nat.le_of_eq (History.balance_markSaved _)
  | history => exact keepBooks_sound [] h fun _ => Nat.le_refl _
  | undo => exact keepBooks?_sound h fun _ hr _ => History.balance_undo? hr
  | redo => exact keepBooks?_sound h fun _ hr _ => History.balance_redo? hr
  | make change =>
    refine .bind fun made hm => ?_
    obtain ⟨made, w'⟩ := made
    obtain ⟨g, rfl, hg⟩ := makeChange_sound _ h hm
    cases made with
    | ok change =>
      refine keepBooks_sound (w := { w with graph := g }) change.holds hg fun p => ?_
      have hmade := History.balance_make (f := Change.holds) (p := p) holds_of_merge? w.history change
      rw [History.weigh, History.weigh, List.flatMap_singleton] at hmade
      exact hmade
    | error fault => exact reply_sound (w := { w with graph := g }) hg _
  | prepare id change =>
    refine .bind fun made hm => ?_
    obtain ⟨made, w'⟩ := made
    obtain ⟨g, rfl, hg⟩ := makeChange_sound _ h hm
    cases made with
    | ok change => exact reply_sound (keepChange_sound (w := { w with graph := g }) hg) _
    | error fault => exact reply_sound (w := { w with graph := g }) hg _
  | applyChange id =>
    exact .bind fun change hc => withCopy_sound h (getElem?_of_changeNamed hc) rfl
  | revertChange id =>
    exact .bind fun change hc => withCopy_sound h (getElem?_of_changeNamed hc) rfl
  | merge a b =>
    exact .bind fun change hc => .bind fun other _ => mergeInto_sound h (getElem?_of_changeNamed hc)
  | batch ids => exact .bind fun changes hc => withCopies_sound h (changes_named hc) rfl
  | applyBatch ids =>
    exact .bind fun changes hc => withCopies_sound h (changes_named hc) (History.discards_map_apply _)
  | revertBatch ids =>
    exact .bind fun changes hc => withCopies_sound h (changes_named hc) (History.discards_map_revert _)

end Workspace

end FormulaGraph
