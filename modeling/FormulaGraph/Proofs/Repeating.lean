import FormulaGraph.Proofs.Plain
import FormulaGraph.Proofs.Rebuilding

/-! Building a formula again after other nodes have changed. What the formula names has the values it had,
though they may have to be worked out again, so the formula is built as before. -/

namespace FormulaGraph

open FormulaGraph.Graph

namespace Graph

variable {g base s s' : Graph} {C : NodeId → Prop} {rank : NodeId → Nat} {top limit : Nat} {t n m : NodeId}
  {v : Value}

/-- A node that is made from legible ones is legible too. -/
theorem Legible.addCell {R : NodeId → Prop} (h : s.Legible R rank) (hlt : ∀ n, R n → n < s.cells.size) {node : Node}
    {cache : Option Value} (hsteady : node.isPending = false) (hdependencies : ∀ d ∈ node.dependencies, R d)
    (hfalls : cache = none → ∀ d ∈ node.dependencies, (s.cell d).dirty = true → rank d < rank s.cells.size)
    (hkept : ∀ v, cache = some v → node = .constant v) :
    (s.addCell node cache).2.Legible (fun n => R n ∨ n = s.cells.size) rank := by
  have hnew : (s.addCell node cache).2.cell s.cells.size = { node, cache, dirty := cache.isNone, owners := 1 } := by
    rw [cell_addCell, if_pos rfl]
  have hold : ∀ n, R n → (s.addCell node cache).2.cell n = s.cell n := fun n hn => by
    rw [cell_addCell, if_neg (Nat.ne_of_lt (hlt n hn))]
  generalize (s.addCell node cache).2 = s' at hnew hold ⊢
  have hnode : ∀ n, R n → s'.node n = s.node n := fun n hn => congrArg Cell.node (hold n hn)
  have hnode' : s'.node s.cells.size = node := congrArg Cell.node hnew
  refine
    { steady := fun n hn => ?_
      within := fun n d hn hd => ?_
      falls := fun n d hn hd hdirtyn hdirtyd => ?_
      kept := fun n hn hclean => ?_ }
  · rcases hn with hn | rfl
    · rw [hnode n hn]
      exact h.steady n hn
    · rw [hnode']
      exact hsteady
  · rcases hn with hn | rfl
    · rw [Uses, dependencies, hnode n hn] at hd
      exact .inl (h.within n d hn hd)
    · rw [Uses, dependencies, hnode'] at hd
      exact .inl (hdependencies d hd)
  · rcases hn with hn | rfl
    · rw [Uses, dependencies, hnode n hn] at hd
      rw [hold n hn] at hdirtyn
      rw [hold d (h.within n d hn hd)] at hdirtyd
      exact h.falls n d hn hd hdirtyn hdirtyd
    · rw [Uses, dependencies, hnode'] at hd
      rw [hnew] at hdirtyn
      rw [hold d (hdependencies d hd)] at hdirtyd
      exact hfalls (Option.isNone_iff_eq_none.mp hdirtyn) d hd hdirtyd
  · rcases hn with hn | rfl
    · rw [hold n hn] at hclean ⊢
      obtain ⟨v, hv, hevaluates⟩ := h.kept n hn hclean
      exact ⟨v, hv, hevaluates.of_within h.within hnode hn⟩
    · rw [hnew] at hclean ⊢
      cases cache with
      | none => cases hclean
      | some v => exact ⟨v, rfl, .constant (hnode'.trans (hkept v rfl))⟩

/-- What a formula is built on: legible nodes below `top`, which is where new nodes are. Whatever is being worked
out is above. -/
structure Footing (base : Graph) (C : NodeId → Prop) (rank : NodeId → Nat) (top : Nat) : Prop where
  legible : base.Legible C rank
  within (n : NodeId) : C n → n < base.cells.size
  busy : base.ClearBelow rank top
  old (n : NodeId) : C n → rank n < top
  new (n : NodeId) : base.cells.size ≤ n → rank n = top

/-- The nodes a formula is built on, and those that have been made for it. -/
def Since (base : Graph) (C : NodeId → Prop) (s : Graph) (n : NodeId) : Prop :=
  C n ∨ base.cells.size ≤ n ∧ n < s.cells.size

/-- While a formula is built. -/
structure Underway (base : Graph) (C : NodeId → Prop) (rank : NodeId → Nat) (top : Nat) (s : Graph) : Prop where
  records : s.records = base.records
  size : base.cells.size ≤ s.cells.size
  node (n : NodeId) : C n → s.node n = base.node n
  legible : s.Legible (Since base C s) rank
  busy : s.ClearBelow rank top

/-- The value that a node would be read to have. Those that have been made for the formula have kept it. -/
def Worth (base : Graph) (C : NodeId → Prop) (s : Graph) (n : NodeId) (v : Value) : Prop :=
  Since base C s n ∧ s.Evaluates n (.ok v) ∧ (base.cells.size ≤ n → (s.cell n).dirty = false)

theorem Footing.underway (hf : Footing base C rank top) : Underway base C rank top base := by
  have hsame : Since base C base = C := by
    funext n
    refine propext ⟨fun h => h.resolve_right fun h => ?_, .inl⟩
    exact Nat.lt_irrefl _ (Nat.lt_of_le_of_lt h.1 h.2)
  exact ⟨rfl, Nat.le_refl _, fun _ _ => rfl, by rw [hsame]; exact hf.legible, hf.busy⟩

theorem Underway.lt_size (h : Underway base C rank top s) (hf : Footing base C rank top)
    (hn : Since base C s n) : n < s.cells.size := by
  rcases hn with hn | hn
  · exact Nat.lt_of_lt_of_le (hf.within n hn) h.size
  · exact hn.2

/-- What is built from the nodes in `C` leads to none that was there and is not in `C`. -/
theorem Underway.not_dependsOn (h : Underway base C rank top s) (ht : t < base.cells.size) (hnot : ¬ C t)
    (hn : Since base C s n) : ¬ s.dependsOn n t = true := fun hd => by
  have hsince : Since base C s t := (dependsOn_iff.mp hd).head_induction_on
    (motive := fun a _ => Since base C s a → Since base C s t) id
    (fun hstep _ ih ha => ih (h.legible.within _ _ ha hstep)) hn
  rcases hsince with hold | hnew
  · exact hnot hold
  · exact Nat.lt_irrefl _ (Nat.lt_of_lt_of_le ht hnew.1)

theorem Underway.rank_le (hf : Footing base C rank top) (hn : Since base C s n) : rank n ≤ top := by
  rcases hn with hn | hn
  · exact Nat.le_of_lt (hf.old n hn)
  · exact Nat.le_of_eq (hf.new n hn.1)

theorem Underway.ready (h : Underway base C rank top s) (hf : Footing base C rank top) (hdeep : top + 1 < limit)
    (hn : Since base C s n) : s.Ready rank limit n := by
  have hle := Underway.rank_le hf hn
  exact ⟨by omega, fun _ => ⟨by omega, fun x hx => Nat.lt_of_le_of_lt hle (h.busy x hx)⟩⟩

/-- What is read meanwhile stays what it is. -/
theorem Underway.tidies (h : Underway base C rank top s) (ht : s.Tidies s') (hl : s'.Legible (Since base C s) rank) :
    Later (Underway base C rank top) (Worth base C) s s' := by
  have hsame : Since base C s' = Since base C s := by
    funext n
    rw [Since, ht.alike.size]
    rfl
  refine ⟨⟨ht.alike.records.trans h.records, ht.alike.size ▸ h.size,
    fun n hn => (ht.alike.node n).trans (h.node n hn), hsame ▸ hl, fun x hx => ?_⟩, fun n v hn => ?_⟩
  · rw [ht.alike.evaluating] at hx
    exact h.busy x hx
  · exact ⟨hsame ▸ hn.1, hn.2.1.of_node ht.alike.node, fun hnew => (ht.clean n (hn.2.2 hnew)).1⟩

/-- A node is made from nodes that are there. If it has yet to be worked out, those of them that have too are
lower. -/
theorem Underway.addCell (h : Underway base C rank top s) (hf : Footing base C rank top) {node : Node}
    {cache : Option Value} (hsteady : node.isPending = false)
    (hdependencies : ∀ d ∈ node.dependencies, Since base C s d)
    (hfalls : cache = none → ∀ d ∈ node.dependencies, (s.cell d).dirty = true → rank d < top)
    (hkept : ∀ v, cache = some v → node = .constant v) :
    Later (Underway base C rank top) (Worth base C) s (s.addCell node cache).2 := by
  have hlt : ∀ n, Since base C s n → n < s.cells.size := fun n hn => h.lt_size hf hn
  have hold : ∀ n, n < s.cells.size → (s.addCell node cache).2.cell n = s.cell n := fun n hn => by
    rw [cell_addCell, if_neg (Nat.ne_of_lt hn)]
  have hnode : ∀ n, Since base C s n → (s.addCell node cache).2.node n = s.node n := fun n hn =>
    congrArg Cell.node (hold n (hlt n hn))
  have hsince : Since base C (s.addCell node cache).2 = fun n => Since base C s n ∨ n = s.cells.size := by
    funext n
    rw [Since, size_addCell, Nat.lt_succ_iff_lt_or_eq, and_or_left, Since, or_assoc]
    have hlast : base.cells.size ≤ n ∧ n = s.cells.size ↔ n = s.cells.size :=
      and_iff_right_of_imp fun he => he ▸ h.size
    rw [hlast]
  refine ⟨⟨h.records, ?_, fun n hn => (hnode n (.inl hn)).trans (h.node n hn), ?_, fun x hx => ?_⟩,
    fun n v hn => ⟨?_, hn.2.1.of_within h.legible.within hnode hn.1, fun hbase => ?_⟩⟩
  · rw [size_addCell]
    exact Nat.le_succ_of_le h.size
  · rw [hsince]
    exact h.legible.addCell hlt hsteady hdependencies (by rwa [hf.new _ h.size]) hkept
  · refine h.busy x ?_
    rw [cell_addCell] at hx
    by_cases hxs : x = s.cells.size
    · rw [if_pos hxs] at hx
      cases hx
    · rwa [if_neg hxs] at hx
  · rw [hsince]
    exact .inl hn.1
  · rw [hold n (hlt n hn.1)]
    exact hn.2.2 hbase

theorem evaluatesAll_of_forall₂ {nodes : List NodeId} {values : List Value}
    (h : List.Forall₂ (fun n v => s.Evaluates n (.ok v)) nodes values) : s.EvaluatesAll nodes (.ok values) := by
  induction h with
  | nil => exact .nil
  | cons hfirst _ ih => exact .cons hfirst ih

/-- A calculation on nodes that have values is made and comes to what follows from them. -/
theorem Underway.addCalculation (h : Underway base C rank top s) (hf : Footing base C rank top)
    {operation : Operation} {arguments : List NodeId} {values : List Value}
    (hvalues : List.Forall₂ (Worth base C s) arguments values) (hv : operation.apply values = .ok v)
    (offset : Nat) :
    Later (Underway base C rank top) (Worth base C) s (s.addCalculation operation arguments offset).2 ∧
      Since base C (s.addCalculation operation arguments offset).2 s.cells.size ∧
        (s.addCalculation operation arguments offset).2.Evaluates s.cells.size (.ok v) := by
  have hcore := core_subscribeAll (g := s) arguments (.node s.cells.size)
  have halike := alike_subscribeAll (g := s) arguments (.node s.cells.size)
  obtain ⟨hsubscribed, hworth⟩ := h.tidies (.of_core halike.records halike.size hcore) (h.legible.of_core hcore)
  obtain ⟨harguments, -⟩ := (List.forall₂_and_left _ _).mp (hvalues.imp fun d v hd =>
    (⟨⟨(hworth d v hd).1, (hworth d v hd).2.2⟩, (hworth d v hd).2.1⟩ : (Since base C _ d ∧ _) ∧ _))
  rw [Graph.addCalculation]
  generalize s.subscribeAll arguments (.node s.cells.size) = subscribed at *
  obtain ⟨tickets, s₁⟩ := subscribed
  dsimp only at *
  rw [← halike.size]
  have hlow : ∀ d ∈ arguments, (s₁.cell d).dirty = true → rank d < top := fun d hd hdirty => by
    rcases (harguments d hd).1 with hold | hnew
    · exact hf.old d hold
    · rw [(harguments d hd).2 hnew.1] at hdirty
      cases hdirty
  have hadded : Later (Underway base C rank top) (Worth base C) s₁
      (s₁.addCell (.calculation operation arguments offset tickets) none).2 :=
    hsubscribed.addCell hf rfl (fun d hd => (harguments d hd).1) (fun _ => hlow) fun _ he => by cases he
  have hnode : (s₁.addCell (.calculation operation arguments offset tickets) none).2.node s₁.cells.size =
      .calculation operation arguments offset tickets := by
    rw [Graph.node, cell_addCell, if_pos rfl]
  have hall := evaluatesAll_of_forall₂ (hvalues.imp fun d v hd => (hadded.2 d v (hworth d v hd)).2.1)
  refine ⟨Later.trans ⟨hsubscribed, hworth⟩ hadded, .inr ⟨hsubscribed.size, ?_⟩,
    .apply hnode hall (by rw [applyAt, hv])⟩
  rw [size_addCell]
  exact Nat.lt_succ_self _

end Graph

section

variable {g base s : Graph} {ext : List Hold} {Apart C : NodeId → Prop} {rank : NodeId → Nat} {top limit : Nat}
  {t n root : NodeId} {read : Reader} {scope : RecordId} {v : Value}

/-- A read goes as deep as has to be. -/
def Deep (base : Graph) (C : NodeId → Prop) (rank : NodeId → Nat) (top : Nat) (read : Reader) : Prop :=
  ∀ {s : Graph} {n : NodeId}, Underway base C rank top s → Since base C s n →
    ∃ limit, top + 1 < limit ∧ (read n).run.run s = (readWithin limit n).run.run s

theorem deep_readNode (hf : Footing base C rank base.cells.size) : Deep base C rank base.cells.size readNode :=
  fun {s n} hs hn => by
    have hpos := Nat.zero_lt_of_lt (hs.lt_size hf hn)
    have hsize := hs.size
    refine ⟨s.depthLimit, ?_, run_readNode n s⟩
    rw [depthLimit]
    omega

/-- Reading a node that has a value gives the value. -/
theorem read_of_worth (hf : Footing base C rank top) (hread : Deep base C rank top read)
    (hs : Underway base C rank top s) (hn : Since base C s n) (hv : s.Evaluates n (.ok v)) :
    ((read n).run.run s).1 = .ok v ∧
      Later (Underway base C rank top) (Worth base C) s ((read n).run.run s).2 ∧
        Worth base C ((read n).run.run s).2 n v := by
  obtain ⟨limit, hdeep, hrun⟩ := hread hs hn
  rw [hrun]
  obtain ⟨hcomes, hclean⟩ := readWithin_plain limit hs.legible hn (hs.ready hf hdeep hn)
  have hresult := hcomes.right.unique hv
  have hlater := hs.tidies hcomes.tidies hcomes.legible
  refine ⟨hresult, hlater, ?_, hv.of_node hcomes.tidies.alike.node, fun _ => hclean v hresult⟩
  rw [Since, hcomes.tidies.alike.size]
  exact hn

/-- What is built on legible nodes is worked out as it is made. -/
theorem constructs_of_footing (hf : Footing base C rank top) (hread : Deep base C rank top read)
    (hrecords : base.records = g.records) :
    Constructs read g (Underway base C rank top) (Worth base C) where
  records hs := hs.records.trans hrecords
  literal {s} value hs := by
    have hadded : Later (Underway base C rank top) (Worth base C) s (s.addCell (.constant value) (some value)).2 :=
      hs.addCell hf rfl (fun d hd => nomatch hd) (fun he => nomatch he) fun v hv =>
        congrArg Node.constant (Option.some.inj hv)
    refine .lift ⟨hadded, .inr ⟨hs.size, ?_⟩, .constant ?_, fun _ => ?_⟩
    · exact Nat.lt_of_lt_of_eq (Nat.lt_succ_self _) (size_addCell _ _).symm
    · show ((s.addCell (.constant value) (some value)).2.cell s.cells.size).node = .constant value
      rw [cell_addCell, if_pos rfl]
    · show ((s.addCell (.constant value) (some value)).2.cell s.cells.size).dirty = false
      rw [cell_addCell, if_pos rfl]
      rfl
  kind {s n v} hs hn := by
    obtain ⟨hresult, hlater, -⟩ := read_of_worth hf hread hs hn.1 hn.2.1
    have hrun : ((graphBuilder read).kind n).run s =
        (((read n).run.run s).1.map Value.kind, ((read n).run.run s).2) := rfl
    refine .lift ?_
    rw [hrun, hresult]
    exact ⟨rfl, hlater⟩
  calculated {s operation arguments values v} offset hs hvalues hv := by
    obtain ⟨hadded, hsince, hevaluates⟩ := hs.addCalculation hf hvalues hv offset
    obtain ⟨hn, -⟩ := node_addCalculation s operation arguments offset
    have hrun := run_calculate read operation arguments offset s
    obtain ⟨hresult, hlater, hworth⟩ := read_of_worth hf hread hadded.1 hsince hevaluates
    rw [hn] at hrun
    generalize (read s.cells.size).run.run (s.addCalculation operation arguments offset).2 = result
      at hrun hresult hlater hworth
    obtain ⟨r, s'⟩ := result
    dsimp only at hresult hlater hworth
    subst hresult
    refine Produces.bind (P := fun r s' => r = .ok s.cells.size ∧
      Later (Underway base C rank top) (Worth base C) s s' ∧ Worth base C s' s.cells.size v) (.lift ?_) fun r s' h => ?_
    · rw [hrun]
      exact ⟨rfl, hadded.trans hlater, hworth⟩
    · obtain ⟨rfl, hl, hw⟩ := h
      exact .pure ⟨hl, hw⟩
  retain {s} n hs := by
    have hcore : ∀ m, ((s.retain (.node n)).cell m).core = (s.cell m).core := core_setOwners
    exact hs.tidies (.of_core rfl size_modifyCell hcore) (hs.legible.of_core hcore)

/-- Legible nodes that a formula names keep the values that they come to. -/
theorem recalls_of_footing {Known : NodeId → Value → Prop} (hf : Footing base C rank top)
    (hnamed : ∀ {r name n v}, 0 < (g.record r).owners → g.resolve? r name = some (.node n) →
      Known n v → C n ∧ base.Evaluates n (.ok v)) :
    Recalls g Known (Underway base C rank top) (Worth base C) where
  named hs hr hm hknown := by
    obtain ⟨hn, hv⟩ := hnamed hr hm hknown
    exact ⟨.inl hn, hv.of_within hf.legible.within hs.node hn,
      fun hnew => absurd (hf.within _ hn) (Nat.not_lt_of_le hnew)⟩

/-- The nodes that a formula names are legible, and those that had a value come to it again. -/
theorem rebuilds_of_footing (hf : Footing base C rank top) (hread : Deep base C rank top read)
    (hrecords : base.records = g.records)
    (hapart : ∀ {n d}, Apart n → d ∈ g.dependencies n → Apart d)
    (hnamed : ∀ {r name n v}, 0 < (g.record r).owners → g.resolve? r name = some (.node n) →
      g.Given Apart n v → C n ∧ base.Evaluates n (.ok v)) :
    Rebuilds read g Apart (Underway base C rank top) (Worth base C) where
  toConstructs := constructs_of_footing hf hread hrecords
  apart := hapart
  named := (recalls_of_footing hf hnamed).named

/-- What a tree only names is a member of a live record. -/
theorem Graph.Named.resolved {e : Expr} (h : g.Named scope e n) (ha : g.Accounts ext)
    (hr : 0 < (g.record scope).owners) :
    ∃ r name, 0 < (g.record r).owners ∧ g.resolve? r name = some (.node n) := by
  induction h with
  | name hbool hm => exact ⟨_, _, hr, hm⟩
  | member h hm => exact ⟨_, _, h.scope_live ha hr _ rfl, hm⟩
  | group h ih => exact ih

/-- A formula that has been built in `g` is parsed again. -/
theorem parse_again (hf : Footing base C rank top)
    (hb : Rebuilds read g Apart (Underway base C rank top) (Worth base C)) (hg : g.Sound ext [])
    (hC : ∀ {r name n}, 0 < (g.record r).owners → g.resolve? r name = some (.node n) → Apart n → C n)
    (hr : 0 < (g.record scope).owners) {text : String} {tokens : List Token} {e : Expr}
    (htokens : tokenize text = .ok tokens) (hspells : Spells 0 e tokens)
    (hbuilt : g.Built scope e (.value root)) (hknown : g.Known scope e (.value root))
    (hlive : 0 < (g.cell root).owners) (hapart : Apart root) :
    ∃ root' s', ((graphBuilder read).parse scope text).run base = (.ok root', s') ∧
      Underway base C rank top s' ∧ Since base C s' root' := by
  have hproduces : Produces ((graphBuilder read).build scope e >>= Entry.only) base fun a s' =>
      Underway base C rank top s' ∧ Since base C s' a := by
    rcases hknown root rfl with ⟨v, hv⟩ | hnamed
    · have hgiven : Gives (g.Given Apart) (.value root) (.value v) := ⟨hv, hlive, hapart⟩
      exact (hb.rebuild hg hr e hf.underway hbuilt hgiven).bind fun x s₁ ⟨hl, hx⟩ =>
        (only_produces hx).mono fun a s₂ ⟨hsame, ha⟩ => hsame ▸ ⟨hl.1, ha.1⟩
    · refine (hb.rebuild_named hg hr hf.underway hnamed).bind fun x s₁ ⟨hs, hx⟩ => ?_
      obtain ⟨r, name, hr', hm⟩ := hnamed.resolved hg.accounts hr
      unfold Entry.only
      rw [hx]
      exact .pure ⟨hs, .inl (hC hr' hm hapart)⟩
  obtain ⟨root', s', hrun, hs, hroot⟩ := hproduces
  exact ⟨root', s', (run_parse_ok_iff _ scope text).mpr ⟨tokens, htokens, (run_takeAll_iff _ scope hspells).mpr hrun⟩,
    hs, hroot⟩

/-- A formula that has been built in `g` is built again for `t`, and does not come to read `t`. -/
theorem buildTree_again (hf : Footing base C rank top)
    (hb : Rebuilds read g Apart (Underway base C rank top) (Worth base C)) (hg : g.Sound ext [])
    (hC : ∀ {r name n}, 0 < (g.record r).owners → g.resolve? r name = some (.node n) → Apart n → C n)
    (ht : t < base.cells.size) (hnot : ¬ C t) (hr : 0 < (g.record scope).owners) {text : String}
    {tokens : List Token} {e : Expr} (htokens : tokenize text = .ok tokens) (hspells : Spells 0 e tokens)
    (hbuilt : g.Built scope e (.value root)) (hknown : g.Known scope e (.value root))
    (hlive : 0 < (g.cell root).owners) (hapart : Apart root) :
    ∃ root', ((buildTree read t scope text).run.run base).1 = .ok root' := by
  obtain ⟨root', s', hparse, hs, hroot⟩ :=
    parse_again hf hb hg hC hr htokens hspells hbuilt hknown hlive hapart
  have hscope : base.scopeIsLive scope = true := by
    rw [scopeIsLive, record, hb.records hf.underway]
    exact decide_eq_true hr
  refine ⟨root', ?_⟩
  rw [run_buildTree, if_pos hscope, hparse]
  dsimp only
  rw [if_neg (hs.not_dependsOn ht hnot hroot)]

end

end FormulaGraph
