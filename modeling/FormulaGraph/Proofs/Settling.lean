import FormulaGraph.Proofs.Evaluating

/-! A whole read. What has to be worked out first can be reached from outside itself, so that the node and
everything below it stays alive. -/

namespace FormulaGraph

open FormulaGraph.Graph

variable {g g' : Graph} {ext : List Hold} {told : List NodeId} {n : NodeId} {read : Reader}

namespace Graph

/-- A node with a name in a live scope is held by a live record. -/
theorem anchored_of_resolve? (h : g.Accounts ext) {r : RecordId} {name : String} (hr : 0 < (g.record r).owners)
    (hm : g.resolve? r name = some (.node n)) : g.Anchored ext n := by
  obtain ⟨s, hs, hsub⟩ := resolve?_held h hr hm
  exact .member hs (hsub _ (List.mem_singleton_self _))

theorem namedIn_anchored {r : RecordId} {text : String} (h : g.Accounts ext) :
    ∀ m ∈ g.namedIn r text, g.Anchored ext m := by
  intro m hm
  rw [namedIn] at hm
  split at hm
  next hr =>
    rw [scopeIsLive, decide_eq_true_eq] at hr
    split at hm
    next tokens _ =>
      obtain ⟨name, -, hname⟩ := List.mem_filterMap.mp hm
      obtain ⟨member, hmember, hnode⟩ := Option.bind_eq_some_iff.mp hname
      cases member with
      | node k =>
        cases hnode
        exact anchored_of_resolve? h hr hmember
      | record | list => cases hnode
    · cases hm
  · cases hm

theorem inputs_anchored (h : g.Accounts ext) (hn : g.Anchored ext n) :
    ∀ m ∈ g.inputs n, g.Anchored ext m := by
  intro m hm
  rw [inputs] at hm
  split at hm
  next scope source hnode =>
    cases hp : source.pending? with
    | some text =>
      rw [hp] at hm
      exact namedIn_anchored h m hm
    | none =>
      rw [hp] at hm
      refine hn.dependency ?_ hm
      rw [hnode, Node.isPending, hp]
      rfl
  next hnode =>
    refine hn.dependency ?_ hm
    cases he : g.node n with
    | constant | input | calculation => rfl
    | expression scope source => exact (hnode scope source he).elim

/-- What is settled is among the nodes that inputs lead to, and is dirty. -/
theorem mem_settleFrom {Q : NodeId → Prop} (hinputs : ∀ m, Q m → g.needsWork m = true → ∀ d ∈ g.inputs m, Q d)
    {visits : List Visit} {marks : Marks} {left : List NodeId} (henter : ∀ m, .enter m ∈ visits → Q m)
    (hleave : ∀ m, .leave m ∈ visits → Q m ∧ g.needsWork m = true)
    (hleft : ∀ m ∈ left, Q m ∧ g.needsWork m = true) :
    ∀ m ∈ g.settleFrom visits marks left, Q m ∧ g.needsWork m = true := by
  fun_induction settleFrom g visits marks left with
  | case1 => exact fun m hm => hleft m (List.mem_reverse.mp hm)
  | case2 marks left m visits ih =>
    refine ih (fun k hk => henter k (List.mem_cons_of_mem _ hk))
      (fun k hk => hleave k (List.mem_cons_of_mem _ hk)) fun k hk => ?_
    cases hk with
    | head => exact hleave m List.mem_cons_self
    | tail _ hk => exact hleft k hk
  | case3 marks left m visits hnew ih =>
    have hm := henter m List.mem_cons_self
    refine ih (fun k hk => ?_) (fun k hk => ?_) hleft
    · have hor : k ∈ g.inputs m ∨ .enter k ∈ visits := by simpa using hk
      exact hor.elim (hinputs m hm hnew.1 k) fun hk => henter k (List.mem_cons_of_mem _ hk)
    · have hor : k = m ∨ .leave k ∈ visits := by simpa using hk
      rcases hor with rfl | hk
      · exact ⟨hm, hnew.1⟩
      · exact hleave k (List.mem_cons_of_mem _ hk)
  | case4 marks left m visits hold ih =>
    exact ih (fun k hk => henter k (List.mem_cons_of_mem _ hk))
      (fun k hk => hleave k (List.mem_cons_of_mem _ hk)) hleft

theorem mem_settleOrder {Q : NodeId → Prop} (hinputs : ∀ m, Q m → g.needsWork m = true → ∀ d ∈ g.inputs m, Q d)
    (hn : ∀ d ∈ g.inputs n, Q d) : ∀ m ∈ g.settleOrder n, Q m ∧ g.needsWork m = true :=
  mem_settleFrom hinputs (fun m hm => hn m (by simpa using hm)) (fun m hm => by simp at hm)
    fun _ hm => (List.not_mem_nil hm).elim

theorem settleOrder_anchored (h : g.Accounts ext) (hn : g.Anchored ext n) :
    ∀ m ∈ g.settleOrder n, g.Anchored ext m :=
  fun m hm => (mem_settleOrder (fun _ hk _ => inputs_anchored h hk) (inputs_anchored h hn) m hm).1

end Graph

theorem run_settleAll_cons (read : Reader) (n : NodeId) (rest : List NodeId) (g : Graph) :
    (settleAll read (n :: rest)).run g =
      if (g.cell n).dirty then
        match (evaluateNode read n).run.run g with
        | (.ok _, g') => (settleAll read rest).run g'
        | (.error _, g') => ((), g')
      else (settleAll read rest).run g := by
  rw [settleAll, StateT.run_bind, StateT.run_get, pure_bind]
  dsimp only
  split
  · rw [StateT.run_bind]
    rcases (evaluateNode read n).run.run g with ⟨e | v, g'⟩ <;> rfl
  · rfl

theorem settleAll_sound (hread : Reads read) {nodes : List NodeId} (h : g.Sound ext told)
    (hnodes : ∀ m ∈ nodes, g.Anchored ext m) :
    ((settleAll read nodes).run g).2.Sound ext told ∧ g.Grows ((settleAll read nodes).run g).2 := by
  induction nodes generalizing g with
  | nil => exact ⟨h, .refl g⟩
  | cons n nodes ih =>
    have hrest := fun d hd => hnodes d (List.mem_cons_of_mem n hd)
    rw [run_settleAll_cons]
    by_cases hdirty : (g.cell n).dirty = true
    · rw [if_pos hdirty]
      obtain ⟨hsound, hgrows, -⟩ := evaluateNode_sound hread h (hnodes n List.mem_cons_self) hdirty
      generalize (evaluateNode read n).run.run g = r at hsound hgrows ⊢
      obtain ⟨e | v, g'⟩ := r
      · exact ⟨hsound, hgrows⟩
      · obtain ⟨hsound', hgrows'⟩ := ih hsound fun d hd => (hrest d hd).grows h.accounts hgrows
        exact ⟨hsound', hgrows.trans hgrows'⟩
    · rw [if_neg hdirty]
      exact ih h hrest

theorem run_settle (read : Reader) (n : NodeId) (g : Graph) :
    (settle read n).run g =
      let g := g.modifyCell n fun c => { c with evaluating := true }
      ((), ((settleAll read (g.settleOrder n)).run g).2.modifyCell n fun c =>
        { c with evaluating := false }) := rfl

/-- The node itself is left for later. -/
theorem settle_sound (hread : Reads read) (h : g.Sound ext told) (hn : g.Anchored ext n)
    (hdirty : (g.cell n).dirty = true) (hidle : (g.cell n).evaluating = false) :
    ((settle read n).run g).2.Sound ext told ∧ g.Grows ((settle read n).run g).2 ∧
      (((settle read n).run g).2.cell n).dirty = true := by
  have hstart := working_setEvaluating h hn hdirty
  have hall := settleAll_sound hread hstart.sound (settleOrder_anchored hstart.sound.accounts hstart.anchored)
  rw [run_settle]
  dsimp only
  generalize (settleAll read (Graph.settleOrder _ n)).run _ = r at hall ⊢
  have hworking := hstart.trans hall.1 hall.2
  refine ⟨hall.1.setEvaluating false, hworking.ends (by exact fun _ => rfl) rfl hidle hdirty, ?_⟩
  rw [cell_modifyCell_congr Cell.dirty (by exact fun _ => rfl)]
  exact hworking.dirty

theorem run_readWith (read : Reader) (n : NodeId) (g : Graph) :
    (readWith read n).run.run g =
      match if (g.cell n).dirty then none else (g.cell n).cache with
      | some value => (.ok value, g)
      | none =>
        if (g.cell n).evaluating then (.error cycleError, g)
        else (evaluateNode read n).run.run ((settle read n).run g).2 := by
  rw [readWith, run_bind_except, run_getCell]
  dsimp only
  cases if (g.cell n).dirty then none else (g.cell n).cache with
  | some value => rfl
  | none =>
    dsimp only
    split <;> rfl

/-- If what it reads with is sound, so is reading a node. -/
theorem readWith_reads (hread : Reads read) : Reads (readWith read) := by
  intro g ext told n h hn
  have hlive := hn.live h.accounts
  rw [run_readWith]
  by_cases hdirty : (g.cell n).dirty = true
  · rw [if_pos hdirty]
    dsimp only
    by_cases he : (g.cell n).evaluating = true
    · rw [if_pos he]
      exact ⟨h, .refl g, fun _ he => by cases he⟩
    · rw [if_neg he]
      obtain ⟨hsound, hgrows, hdirty'⟩ := settle_sound hread h hn hdirty (Bool.eq_false_iff.mpr he)
      obtain ⟨hsound', hgrows', hvalue⟩ :=
        evaluateNode_sound hread hsound (hn.grows h.accounts hgrows) hdirty'
      exact ⟨hsound', hgrows.trans hgrows', hvalue⟩
  · have hclean := Bool.eq_false_iff.mpr hdirty
    obtain ⟨v, hv⟩ := h.coherent.cached n hlive hclean
    rw [if_neg hdirty, hv]
    exact ⟨h, .refl g, fun w hw => by cases hw; exact ⟨hclean, hv⟩⟩

/-- However deep a read goes, by induction on how deep it may go. -/
theorem readWithin_reads (limit : Nat) : Reads (readWithin limit) := by
  induction limit with
  | zero => exact fun h _ => ⟨h, .refl _, fun _ he => by cases he⟩
  | succ limit ih => exact readWith_reads ih

theorem run_readNode (n : NodeId) (g : Graph) :
    (readNode n).run.run g = (readWithin g.depthLimit n).run.run g := by
  rw [readNode, run_bind_except, run_get]

theorem readNode_reads : Reads readNode := by
  intro g ext told n h hn
  rw [run_readNode]
  exact readWithin_reads g.depthLimit h hn

end FormulaGraph
