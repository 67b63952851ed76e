import FormulaGraph.Proofs.Sequencing
import FormulaGraph.Proofs.Waiting

/-! Settling prepares what is read next. When a node is about to be worked out, whatever it reads that was there
before is clean, so that working it out works nothing else out that was there, however long the way down was. -/

namespace FormulaGraph

open FormulaGraph.Graph Relation

namespace Graph

/-- Nothing has gone wrong in between: a node whose evaluation fails is left dirty, and to evaluate it again counts
again. -/
def Succeeds (g g' : Graph) : Prop :=
  ∀ m < g.cells.size, (g'.cell m).evaluations ≠ (g.cell m).evaluations →
    (g'.cell m).evaluations = (g.cell m).evaluations + 1 ∧ (g'.cell m).dirty = false

/-- The node is to be worked out, and all that this takes from the nodes that are there has been worked out. -/
structure Prepared (g : Graph) (read : Reader) (n : NodeId) : Prop where
  dirty : (g.cell n).dirty = true
  clean (d : NodeId) : d ∈ g.inputs n → (g.cell d).dirty = false
  /-- If a formula is built, whatever it names is among the inputs. -/
  named (scope : RecordId) (source : Source) (text : String) (tokens : List Token) (e : Expr) (d : NodeId) :
    g.node n = .expression scope source → source.pending? = some text → tokenize text = .ok tokens →
      Spells 0 e tokens → g.Mentions scope e d → d ∈ g.inputs n
  succeeds : ∃ v, ((evaluateNode read n).run.run g).1 = .ok v
  alone (m : NodeId) : m < g.cells.size → m ≠ n →
    (((evaluateNode read n).run.run g).2.cell m).evaluations = (g.cell m).evaluations

/-- A state that a read has come to. -/
structure Follows (g : Graph) (ext : List Hold) (told : List NodeId) (s : Graph) : Prop where
  sound : s.Sound ext told
  awaits : s.Awaits
  steady (m : NodeId) : m < g.cells.size → (g.node m).isPending = false → s.node m = g.node m
  turned : g.Turned [] s
  proceeds : g.Proceeds s

variable {g g' s : Graph} {ext : List Hold} {told : List NodeId} {n m d : NodeId} {scope : RecordId}
  {source : Source} {text : String}

instance : Decidable (g.Succeeds g') := inferInstanceAs (Decidable (∀ m < g.cells.size, _ → _))

/-- A node has been left as it was, or has been worked out once and for all. -/
theorem Succeeds.idle_or_done (hok : g.Succeeds g') (hs : g.Proceeds s) (hs' : s.Proceeds g')
    (hm : m < g.cells.size) :
    ((s.cell m).evaluations = (g.cell m).evaluations ∧ (s.cell m).dirty = (g.cell m).dirty ∧ s.node m = g.node m) ∨
      ((g.cell m).evaluations < (s.cell m).evaluations ∧ (s.cell m).dirty = false ∧
        ¬ (g.node m).TakenBack (s.node m)) := by
  have hle := hs.evaluations m hm
  have hm' := Nat.lt_of_lt_of_le hm hs.size
  have hle' := hs'.evaluations m hm'
  by_cases hsame : (s.cell m).evaluations = (g.cell m).evaluations
  · exact .inl ⟨hsame, (hs.cell m trivial hm).idle hsame⟩
  · obtain ⟨hnext, hclean⟩ := hok m hm (by omega)
    have hdirty := ((hs'.cell m trivial hm').idle (by omega)).1
    rw [hclean] at hdirty
    exact .inr ⟨by omega, hdirty.symm, (hs.cell m trivial hm).once (by omega) hdirty.symm⟩

namespace Follows

theorem refl (h : g.Sound ext told) (hawaits : g.Awaits) : g.Follows ext told g :=
  ⟨h, hawaits, fun _ _ _ => rfl, turned_refl g [], .refl g⟩

theorem anchored (h : g.Follows ext told s) (ha : g.Accounts ext) (hm : g.Anchored ext m) : s.Anchored ext m :=
  hm.of_steady ha h.proceeds.records fun m hlive => h.steady m (lt_size_of_owners_pos hlive)

theorem grows {s' : Graph} (h : g.Follows ext told s) (hsound : s'.Sound ext told) (hg : s.Grows s')
    (hturned : g.Turned [] s') (hproceeds : s.Proceeds s') : g.Follows ext told s' where
  sound := hsound
  awaits := hproceeds.awaits h.awaits
  steady m hm hsteady := by
    have hsame := h.steady m hm hsteady
    rw [hg.node m trivial (Nat.lt_of_lt_of_le hm h.proceeds.size) (.inl (by rwa [hsame])), hsame]
  turned := hturned
  proceeds := h.proceeds.trans hproceeds

theorem setEvaluating (h : g.Follows ext told s) (n : NodeId) (evaluating : Bool) :
    g.Follows ext told (s.modifyCell n fun c => { c with evaluating }) := by
  have hnode : ∀ m, (s.modifyCell n fun c => { c with evaluating }).node m = s.node m :=
    cell_modifyCell_congr Cell.node (by exact fun _ => rfl)
  exact
    { sound := h.sound.setEvaluating evaluating
      awaits := h.awaits.of_eq hnode fun m hd => (cell_modifyCell_congr Cell.dirty (by exact fun _ => rfl) m).trans hd
      steady := fun m hm hsteady => (hnode m).trans (h.steady m hm hsteady)
      turned := h.turned.later (treesFrom_modifyCell (by exact fun _ => rfl)).extension fun m _ => hnode m
      proceeds := h.proceeds.trans (still_setEvaluating evaluating).proceeds }

theorem evaluated (h : g.Follows ext told s) (limit : Nat) (hm : s.Anchored ext m)
    (hdirty : (s.cell m).dirty = true) :
    g.Follows ext told ((evaluateNode (readWithin limit) m).run.run s).2 := by
  have hread : Reads (readWithin limit) := readWithin_reads limit
  obtain ⟨hsound, hgrows, -⟩ := evaluateNode_sound hread h.sound hm hdirty
  exact h.grows hsound hgrows
    (evaluateNode_lasts (lasts_turned g).abides hread (readWithin_keeps (lasts_turned g).abides limit) h.sound hm
      hdirty h.turned)
    (evaluateNode_proceeds hread (readWithin_proceeds limit) h.sound hm hdirty)

theorem settled (h : g.Follows ext told s) (limit : Nat) {nodes : List NodeId}
    (hnodes : ∀ m ∈ nodes, s.Anchored ext m) :
    g.Follows ext told ((settleAll (readWithin limit) nodes).run s).2 := by
  have hread : Reads (readWithin limit) := readWithin_reads limit
  obtain ⟨hsound, hgrows⟩ := settleAll_sound hread h.sound hnodes
  exact h.grows hsound hgrows
    (settleAll_lasts (lasts_turned g).abides hread (readWithin_keeps (lasts_turned g).abides limit) h.sound hnodes
      h.turned)
    (settleAll_proceeds hread (readWithin_proceeds limit) h.sound hnodes)

/-- A formula that was pending and whose node is clean has been built. -/
theorem builtFrom (h : g.Follows ext told s) (hs' : s.Proceeds g') (hok : g.Succeeds g')
    (hclean : (s.cell m).dirty = false) (hnode : g.node m = .expression scope source)
    (hp : source.pending? = some text) :
    ∃ tree, s.node m = .expression scope (.built tree) ∧ s.BuiltFrom scope text tree.root := by
  have hsteady := h.awaits.steady hclean
  have hlt : m < g.cells.size := lt_size_of_node (by simp [hnode])
  have hpending : (source.pending?).isSome = true := Option.isSome_of_eq_some hp
  rcases h.turned m scope source text hnode hp with hsame | ⟨tree, htree, hback | ⟨-, hbuilt⟩⟩
  · rw [hsame, Node.isPending, hpending] at hsteady
    cases hsteady
  · rcases hok.idle_or_done h.proceeds hs' hlt with ⟨-, -, hidle⟩ | ⟨-, -, hkept⟩
    · rw [hidle, hnode, Node.isPending, hpending] at hsteady
      cases hsteady
    · exact (hkept ⟨scope, text, tree, hback ▸ hnode, htree⟩).elim
  · exact ⟨tree, htree, hbuilt⟩

/-- What a node named before it was worked out is what it reads then. -/
theorem uses_of_inputs (h : g.Follows ext told s) (hs' : s.Proceeds g') (hok : g.Succeeds g')
    (hplain : g.NamesPlainly m) (hlt : m < g.cells.size) (hclean : (s.cell m).dirty = false) (hd : d ∈ g.inputs m) : TransGen s.Uses m d := by
  by_cases hpending : (g.node m).isPending = true
  · cases hnode : g.node m with
    | constant | input | calculation =>
      rw [hnode] at hpending
      cases hpending
    | expression scope source =>
      rw [hnode] at hpending
      obtain ⟨text, hp⟩ := Option.isSome_iff_exists.mp hpending
      obtain ⟨tree, htree, hscope, tokens, e, htokens, hspells, hbuilt⟩ := h.builtFrom hs' hok hclean hnode hp
      have hscope : g.scopeIsLive scope = true := by
        rw [record, h.proceeds.records] at hscope
        exact decide_eq_true hscope
      have hmentions := hplain.mentions_of_inputs hnode hp hscope htokens hspells h.proceeds.records hbuilt hd
      obtain ⟨root, hroot, hreaches⟩ := hmentions.reaches hbuilt
      cases hroot
      refine .head' ?_ hreaches
      rw [Uses, dependencies, htree]
      exact List.mem_singleton_self _
  · have hsteady := Bool.eq_false_iff.mpr hpending
    rw [inputs_of_steady hsteady, dependencies, ← h.steady m hlt hsteady] at hd
    exact .single hd

end Follows

/-- The turn of a node has come in a read in which nothing goes wrong. -/
structure Turn (g : Graph) (ext : List Hold) (told : List NodeId) (limit : Nat) (m : NodeId) (s g' : Graph) :
    Prop where
  follows : g.Follows ext told s
  lt : m < g.cells.size
  anchored : s.Anchored ext m
  dirty : (s.cell m).dirty = true
  idle : ¬ (s.cell m).evaluating = true
  succeeds : g.Succeeds g'
  later : ((evaluateNode (readWithin limit) m).run.run s).2.Proceeds g'

namespace Turn

variable {limit : Nat}

theorem grows (h : g.Turn ext told limit m s g') : s.Grows ((evaluateNode (readWithin limit) m).run.run s).2 :=
  (evaluateNode_sound (readWithin_reads limit) h.follows.sound h.anchored h.dirty).2.1

theorem after (h : g.Turn ext told limit m s g') :
    g.Follows ext told ((evaluateNode (readWithin limit) m).run.run s).2 :=
  h.follows.evaluated limit h.anchored h.dirty

/-- What is worked out has a value then. -/
theorem done (h : g.Turn ext told limit m s g') :
    (∃ v, ((evaluateNode (readWithin limit) m).run.run s).1 = .ok v) ∧
      (((evaluateNode (readWithin limit) m).run.run s).2.cell m).dirty = false ∧
        ¬ (g.node m).TakenBack (((evaluateNode (readWithin limit) m).run.run s).2.node m) := by
  obtain ⟨hproceeds, hmore, hfails⟩ := evaluateNode_counts (readWithin_reads limit) (readWithin_proceeds limit)
    h.follows.sound h.anchored h.dirty h.idle
  have hle := h.follows.proceeds.evaluations m h.lt
  rcases h.succeeds.idle_or_done (h.follows.proceeds.trans hproceeds) h.later h.lt with
    ⟨hsame, -⟩ | ⟨-, hclean, hkept⟩
  · omega
  · refine ⟨?_, hclean, hkept⟩
    cases hr : ((FormulaGraph.evaluateNode (readWithin limit) m).run.run s).1 with
    | ok v => exact ⟨v, rfl⟩
    | error e =>
      rw [hfails e hr] at hclean
      cases hclean

/-- A formula that still waits to be built can be, since this is what comes next. -/
theorem spelled (h : g.Turn ext told limit m s g') (hsame : s.node m = g.node m)
    (hnode : s.node m = .expression scope source) (hp : source.pending? = some text) :
    s.scopeIsLive scope = true ∧ ∃ tokens e, tokenize text = .ok tokens ∧ Spells 0 e tokens := by
  obtain ⟨tree, -, hscope, tokens, e, htokens, hspells, -⟩ :=
    h.after.builtFrom h.later h.succeeds h.done.2.1 (hsame.symm.trans hnode) hp
  rw [record, h.grows.records] at hscope
  exact ⟨decide_eq_true hscope, tokens, e, htokens, hspells⟩

end Turn

/-- What a node reads whose inputs are clean, with the nodes that are still to be made. -/
def Within (s : Graph) (m x : NodeId) : Prop := s.cells.size ≤ x ∨ x = m ∨ (s.cell x).dirty = false

theorem Within.eq_of_dirty {x : NodeId} (h : s.Within m x) (hdirty : (s.cell x).dirty = true) : x = m := by
  rcases h with hnew | he | hclean
  · exact (Nat.not_lt_of_le hnew (lt_size_of_dirty hdirty)).elim
  · exact he
  · rw [hdirty] at hclean
    cases hclean

theorem Within.eq_of_pending {x : NodeId} (hs : s.Awaits) (h : s.Within m x)
    (hpending : (s.node x).isPending = true) : x = m :=
  h.eq_of_dirty (hs x hpending)

theorem seals_of_clean (hs : s.Awaits)
    (hclean : ∀ d ∈ s.inputs m, (s.cell d).dirty = false) (hplain : s.NamesPlainly m)
    (hbuilt : ∀ scope source text, s.node m = .expression scope source → source.pending? = some text →
      s.scopeIsLive scope = true ∧ ∃ tokens e, tokenize text = .ok tokens ∧ Spells 0 e tokens) :
    s.Seals (s.Within m) := by
  have hinputs : ∀ d ∈ s.inputs m, s.Within m d := fun d hd => .inr (.inr (hclean d hd))
  refine ⟨fun x hx => .inl hx, fun x d hx hdirty hsteady hd => ?_, fun x scope source text hx hnode hp => ?_⟩
  · obtain rfl := hx.eq_of_dirty hdirty
    rw [← inputs_of_steady hsteady] at hd
    exact hinputs d hd
  · obtain rfl := hx.eq_of_pending hs (by rw [hnode]; exact Option.isSome_of_eq_some hp)
    obtain ⟨hlive, tokens, e, htokens, hspells⟩ := hbuilt scope source text hnode hp
    refine ⟨tokens, e, htokens, hspells, fun name hname d hd => hinputs d ?_, fun d hd => hinputs d ?_⟩
    · rw [inputs_of_pending hnode hp]
      exact (mem_namedIn hlive htokens).mpr ⟨name, hname, hd⟩
    · exact hplain.inputs_of_mentions hnode hp hlive htokens hspells hd

section

variable {limit : Nat}

/-- No other node that is there is worked out along with a node that is sealed by its inputs. -/
theorem Turn.alone (h : g.Turn ext told limit m s g') (hnode : s.node m = g.node m) (hseals : s.Seals (s.Within m))
    {x : NodeId} (hx : x < s.cells.size) (hne : x ≠ m) :
    (((evaluateNode (readWithin limit) m).run.run s).2.cell x).evaluations = (s.cell x).evaluations := by
  have hread : Reads (readWithin limit) := readWithin_reads limit
  have hconfined := evaluateNode_confined hseals (readWithin_confines hseals limit) h.follows.sound h.anchored h.dirty
    (.inr (.inl rfl)) hseals.confined
  have hproceeds := evaluateNode_proceeds hread (readWithin_proceeds limit) h.follows.sound h.anchored h.dirty
  rcases hconfined.fenced with ⟨k, scope, text, old, hk, hbefore, hback⟩ | hfenced
  · obtain rfl := hk.eq_of_pending h.follows.awaits (by rw [hbefore]; rfl)
    exact (h.done.2.2 ⟨scope, text, old, hnode.symm.trans hbefore, hback⟩).elim
  · by_cases hin : s.Within m x
    · rcases hin with hnew | he | hclean
      · exact (Nat.not_lt_of_le hnew hx).elim
      · exact (hne he).elim
      · exact (hproceeds.cell x trivial hx).clean hclean
    · exact (hfenced.outside x hin).1

/-- A node whose turn comes when all of its inputs are clean is prepared. -/
theorem Turn.prepared (h : g.Turn ext told limit m s g') (hplain : g.NamesPlainly m)
    (hsame : (s.cell m).evaluations = (g.cell m).evaluations)
    (hclean : ∀ d ∈ g.inputs m, (s.cell d).dirty = false) : s.Prepared (readWithin limit) m := by
  have hnode : s.node m = g.node m := ((h.follows.proceeds.cell m trivial h.lt).idle hsame).2
  have hplain' : s.NamesPlainly m := hplain.congr h.follows.proceeds.records hnode
  rw [← inputs_congr h.follows.proceeds.records hnode] at hclean
  have hseals := seals_of_clean h.follows.awaits hclean hplain' fun _ _ _ => h.spelled hnode
  exact
    { dirty := h.dirty
      clean := hclean
      named := fun scope source text tokens e d hn hp htokens hspells hd =>
        hplain'.inputs_of_mentions hn hp (h.spelled hnode hn hp).1 htokens hspells hd
      succeeds := h.done.1
      alone := fun x hx hne => h.alone hnode hseals hx hne }

end

/-- All that a node leads to through inputs is clean when the node is. -/
theorem Succeeds.clean_of_reached (hok : g.Succeeds g') (hs : g.Proceeds g') (ha : g.Accounts ext)
    (hn : g.Anchored ext n) (hclean : (g'.cell n).dirty = false)
    (hplain : ∀ m, ReflTransGen g.DrawsOn n m → g.NamesPlainly m) (hm : ReflTransGen g.DrawsOn n m) :
    g.Anchored ext m ∧ (g'.cell m).dirty = false := by
  induction hm with
  | refl => exact ⟨hn, hclean⟩
  | tail hm hd ih =>
    obtain ⟨hanchored, hclean⟩ := ih
    obtain ⟨hdirty, hd⟩ := hd
    have hlt := lt_size_of_dirty hdirty
    have hmore : (g'.cell _).evaluations ≠ (g.cell _).evaluations := fun hsame => by
      rw [((hs.cell _ trivial hlt).idle hsame).1, hdirty] at hclean
      cases hclean
    exact ⟨inputs_anchored ha hanchored _ hd,
      (hs.drained _ trivial hlt (hok _ hlt hmore).1 hclean (hplain _ hm) _ hd).2⟩

/-- Where nodes lead to one another through inputs, they have come to read one another. -/
theorem Follows.acyclic (h : g.Follows ext told g') (hok : g.Succeeds g') (ha : g.Accounts ext)
    (hn : g.Anchored ext n) (hclean : (g'.cell n).dirty = false) (ho : g'.Orderly)
    (hplain : ∀ m, ReflTransGen g.DrawsOn n m → g.NamesPlainly m)
    (hm : ReflTransGen g.DrawsOn n m) : ¬ TransGen g.DrawsOn m m := by
  have huses : ∀ a d, ReflTransGen g.DrawsOn n a → g.DrawsOn a d → TransGen g'.Uses a d := by
    intro a d ha' hd
    have hclean := (hok.clean_of_reached h.proceeds ha hn hclean hplain ha').2
    exact h.uses_of_inputs (.refl g') hok (hplain a ha') (lt_size_of_dirty hd.1) hclean hd.2
  have hway : ∀ d, TransGen g.DrawsOn m d → TransGen g'.Uses m d := by
    intro d hd
    induction hd with
    | single hd => exact huses m _ hm hd
    | tail hway hd ih => exact ih.trans (huses _ _ (hm.trans hway.to_reflTransGen) hd)
  exact fun hcycle => ho.acyclic m (hway m hcycle)

/-- The nodes that have been settled are clean, and no others have been worked out. -/
structure Settles (g : Graph) (ext : List Hold) (told : List NodeId) (read : Reader) (before : List NodeId)
    (s : Graph) : Prop where
  follows : g.Follows ext told s
  grows : g.Grows s
  through (rest : List NodeId) : (settleAll read (before ++ rest)).run g = (settleAll read rest).run s
  clean (m : NodeId) : m ∈ before → m < g.cells.size ∧ (s.cell m).dirty = false
  idle (m : NodeId) : m < g.cells.size → m ∉ before → (s.cell m).evaluations = (g.cell m).evaluations

/-- What a node reads is clean when the nodes before it have been settled. -/
theorem Settles.inputs_clean {read : Reader} {before : List NodeId} (h : g.Settles ext told read before s)
    (hbefore : ∀ d ∈ g.inputs m, g.needsWork d = true → d ∈ before) (hlt : ∀ d ∈ g.inputs m, d < g.cells.size)
    (hbusy : ∀ d ∈ g.inputs m, (g.cell d).evaluating = true → (g.cell d).dirty = false) :
    ∀ d ∈ g.inputs m, (s.cell d).dirty = false := by
  intro d hd
  cases hdirty : (g.cell d).dirty with
  | false => exact h.follows.proceeds.clean d (hlt d hd) hdirty
  | true =>
    refine (h.clean d (hbefore d hd ?_)).2
    rw [needsWork, hdirty, Bool.true_and, Bool.not_eq_true']
    refine Bool.eq_false_iff.mpr fun he => ?_
    rw [hbusy d hd he] at hdirty
    cases hdirty

theorem Settles.refl (h : g.Sound ext told) (hawaits : g.Awaits) (read : Reader) : g.Settles ext told read [] g where
  follows := .refl h hawaits
  grows := .refl g
  through _ := rfl
  clean _ hm := (List.not_mem_nil hm).elim
  idle _ _ _ := rfl

/-- Nodes that are to be settled, and `g'` is what comes of it. -/
structure ToSettle (g : Graph) (ext : List Hold) (told : List NodeId) (limit : Nat) (order : List NodeId)
    (g' : Graph) : Prop where
  sound : g.Sound ext told
  awaits : g.Awaits
  succeeds : g.Succeeds g'
  final : ((settleAll (readWithin limit) order).run g).2.Proceeds g'
  sequenced : g.Sequenced order
  anchored (m : NodeId) : m ∈ order → g.Anchored ext m
  plain (m : NodeId) : m ∈ order → g.NamesPlainly m
  needsWork (m : NodeId) : m ∈ order → g.needsWork m = true
  busy (m d : NodeId) : m ∈ order → d ∈ g.inputs m → (g.cell d).evaluating = true → (g.cell d).dirty = false

section

variable {limit : Nat} {order before after : List NodeId}

/-- Whether a node can be worked out or not, what is left to settle follows. -/
theorem ToSettle.later (h : g.ToSettle ext told limit order g') (hs : g.Settles ext told (readWithin limit) before s)
    (horder : order = before ++ m :: after) (hdirty : (s.cell m).dirty = true) :
    ((evaluateNode (readWithin limit) m).run.run s).2.Proceeds g' := by
  have hread : Reads (readWithin limit) := readWithin_reads limit
  have hlater : ∀ x ∈ m :: after, s.Anchored ext x := fun x hx =>
    hs.follows.anchored h.sound.accounts (h.anchored x (horder ▸ List.mem_append_right before hx))
  obtain ⟨hsound, hgrows, -⟩ := evaluateNode_sound hread hs.follows.sound (hlater m List.mem_cons_self) hdirty
  have hfinal := h.final
  rw [horder, hs.through, run_settleAll_cons, if_pos hdirty] at hfinal
  generalize (evaluateNode (readWithin limit) m).run.run s = r at hfinal hsound hgrows ⊢
  obtain ⟨e | v, t⟩ := r
  · exact hfinal
  · exact (settleAll_proceeds hread (readWithin_proceeds limit) hsound fun x hx =>
      (hlater x (List.mem_cons_of_mem _ hx)).grows hs.follows.sound.accounts hgrows).trans hfinal

theorem ToSettle.turn (h : g.ToSettle ext told limit order g') (hs : g.Settles ext told (readWithin limit) before s)
    (horder : order = before ++ m :: after) :
    g.Turn ext told limit m s g' ∧ (s.cell m).evaluations = (g.cell m).evaluations := by
  have hmem : m ∈ order := horder ▸ List.mem_append_right before List.mem_cons_self
  obtain ⟨hdirty, hidle⟩ := Bool.and_eq_true_iff.mp (h.needsWork m hmem)
  have hlt := lt_size_of_dirty hdirty
  have hnew : m ∉ before := fun hm => by
    have hnodup := h.sequenced.nodup
    rw [horder] at hnodup
    exact (List.nodup_append.mp hnodup).2.2 m hm m List.mem_cons_self rfl
  have hsame := hs.idle m hlt hnew
  have hdirty' := ((hs.follows.proceeds.cell m trivial hlt).idle hsame).1.trans hdirty
  have hturn : g.Turn ext told limit m s g' :=
    { follows := hs.follows
      lt := hlt
      anchored := hs.follows.anchored h.sound.accounts (h.anchored m hmem)
      dirty := hdirty'
      idle := by
        rw [hs.grows.evaluating m trivial hlt]
        simpa using hidle
      succeeds := h.succeeds
      later := h.later hs horder hdirty' }
  exact ⟨hturn, hsame⟩

theorem ToSettle.prepared (h : g.ToSettle ext told limit order g')
    (hs : g.Settles ext told (readWithin limit) before s) (horder : order = before ++ m :: after) : s.Prepared (readWithin limit) m := by
  obtain ⟨hturn, hsame⟩ := h.turn hs horder
  have hmem : m ∈ order := horder ▸ List.mem_append_right before List.mem_cons_self
  refine hturn.prepared (h.plain m hmem) hsame ?_
  exact hs.inputs_clean (fun d hd => h.sequenced.before before after m d horder hd)
    (lt_size_of_inputs h.sound.accounts (h.anchored m hmem)) fun d hd => h.busy m d hmem hd

/-- One node more is settled. -/
theorem ToSettle.step (h : g.ToSettle ext told limit order g') (hs : g.Settles ext told (readWithin limit) before s)
    (horder : order = before ++ m :: after) :
    g.Settles ext told (readWithin limit) (before ++ [m]) ((evaluateNode (readWithin limit) m).run.run s).2 := by
  have hturn := (h.turn hs horder).1
  have halone := (h.prepared hs horder).alone
  have hkept := hs.follows.proceeds.size
  obtain ⟨⟨v, hv⟩, hdone, -⟩ := hturn.done
  refine ⟨hturn.after, hs.grows.trans hturn.grows, fun rest => ?_, fun x hx => ?_, fun x hx hnot => ?_⟩
  · rw [List.append_assoc, List.singleton_append, hs.through, run_settleAll_cons, if_pos hturn.dirty]
    generalize (evaluateNode (readWithin limit) m).run.run s = r at hv
    obtain ⟨e | v, t⟩ := r
    · cases hv
    · rfl
  · rcases List.mem_append.mp hx with hx | hx
    · obtain ⟨hltx, hclean⟩ := hs.clean x hx
      exact ⟨hltx, (hturn.grows.clean x trivial (Nat.lt_of_lt_of_le hltx hkept) hclean).1⟩
    · rw [List.mem_singleton.mp hx]
      exact ⟨hturn.lt, hdone⟩
  · have hxm : x ∉ before ∧ x ≠ m := by simpa using hnot
    rw [halone x (Nat.lt_of_lt_of_le hx hkept) hxm.2]
    exact hs.idle x hx hxm.1

/-- One node after the other, by induction on how many have been settled. -/
theorem ToSettle.settles (h : g.ToSettle ext told limit order g') (horder : order = before ++ after) :
    g.Settles ext told (readWithin limit) before ((settleAll (readWithin limit) before).run g).2 := by
  induction before using List.reverseRecOn generalizing after with
  | nil => exact .refl h.sound h.awaits _
  | append_singleton before m ih =>
    rw [List.append_assoc, List.singleton_append] at horder
    have hs := ih horder
    have hnext := h.step hs horder
    have hrun : ((settleAll (readWithin limit) (before ++ [m])).run g).2 =
        ((evaluateNode (readWithin limit) m).run.run ((settleAll (readWithin limit) before).run g).2).2 := by
      have hthrough := hnext.through []
      rw [List.append_nil] at hthrough
      rw [hthrough]
      rfl
    rw [hrun]
    exact hnext

end

theorem Sequenced.of_concat {order : List NodeId} (h : g.Sequenced (order ++ [n])) : g.Sequenced order ∧ n ∉ order :=
  ⟨⟨(List.nodup_append.mp h.nodup).1, fun before after m d he => h.before before (after ++ [n]) m d (by simp [he])⟩,
    fun hn => (List.nodup_append.mp h.nodup).2.2 n hn n (List.mem_singleton_self n) rfl⟩

/-- Work on a node has begun. Settling comes to `s`, and working the node out then comes to `g'`, with nothing that
goes wrong. -/
structure Begun (g : Graph) (ext : List Hold) (told : List NodeId) (limit : Nat) (n : NodeId) (s g' : Graph) :
    Prop where
  working : g.Working ext told n g
  awaits : g.Awaits
  settled : s = ((settleAll (readWithin limit) (g.settleOrder n)).run g).2.modifyCell n
    fun c => { c with evaluating := false }
  read : g' = ((evaluateNode (readWithin limit) n).run.run s).2
  orderly : g'.Orderly
  succeeds : g.Succeeds g'
  others (d : NodeId) : d ≠ n → (g.cell d).evaluating = true → (g'.cell d).dirty = (g.cell d).dirty
  plain (m : NodeId) : ReflTransGen g.DrawsOn n m → g.NamesPlainly m

namespace Begun

variable {limit : Nat}

theorem lt (h : g.Begun ext told limit n s g') : n < g.cells.size := lt_size_of_dirty h.working.dirty

theorem order_anchored (h : g.Begun ext told limit n s g') : ∀ m ∈ g.settleOrder n, g.Anchored ext m :=
  settleOrder_anchored h.working.sound.accounts h.working.anchored

theorem dirty_settled (h : g.Begun ext told limit n s g') (m : NodeId) :
    (s.cell m).dirty = (((settleAll (readWithin limit) (g.settleOrder n)).run g).2.cell m).dirty :=
  h.settled ▸ cell_modifyCell_congr Cell.dirty (by exact fun _ => rfl) m

theorem turn (h : g.Begun ext told limit n s g') : g.Turn ext told limit n s g' := by
  have hlt := h.lt
  have hgrows := (settleAll_sound (readWithin_reads limit) h.working.sound h.order_anchored).2
  have hfollows : g.Follows ext told s :=
    h.settled ▸ ((Follows.refl h.working.sound h.awaits).settled limit h.order_anchored).setEvaluating n false
  refine ⟨hfollows, hlt, hfollows.anchored h.working.sound.accounts h.working.anchored, ?_, ?_, h.succeeds, ?_⟩
  · rw [h.dirty_settled, hgrows.busy n trivial hlt h.working.evaluating, h.working.dirty]
  · rw [h.settled, cell_modifyCell_self (Nat.lt_of_lt_of_le hlt hgrows.size)]
    exact Bool.noConfusion
  · exact h.read ▸ .refl _

theorem after (h : g.Begun ext told limit n s g') : g.Follows ext told g' := h.read ▸ h.turn.after

theorem proceeds (h : g.Begun ext told limit n s g') : s.Proceeds g' := by
  have hturn := h.turn
  rw [h.read]
  exact evaluateNode_proceeds (readWithin_reads limit) (readWithin_proceeds limit) hturn.follows.sound hturn.anchored
    hturn.dirty

theorem clean (h : g.Begun ext told limit n s g') : (g'.cell n).dirty = false := h.read ▸ h.turn.done.2.1

theorem acyclic (h : g.Begun ext told limit n s g') (hm : ReflTransGen g.DrawsOn n m) : ¬ TransGen g.DrawsOn m m :=
  h.after.acyclic h.succeeds h.working.sound.accounts h.working.anchored h.clean h.orderly h.plain hm

/-- Of the nodes that are being worked out already, none that is dirty is led to. -/
theorem clean_of_busy (h : g.Begun ext told limit n s g') (hm : ReflTransGen g.DrawsOn n m) (hd : g.DrawsOn m d)
    (he : (g.cell d).evaluating = true) : (g.cell d).dirty = false := by
  by_cases hdn : d = n
  · subst hdn
    exact (h.acyclic .refl (.tail' hm hd)).elim
  · rw [← h.others d hdn he]
    exact (h.succeeds.clean_of_reached h.after.proceeds h.working.sound.accounts h.working.anchored h.clean h.plain
      (hm.tail hd)).2

theorem sequenced (h : g.Begun ext told limit n s g') : g.Sequenced (g.settleOrder n ++ [n]) :=
  sequenced_settleOrder h.lt h.working.dirty fun _ => h.acyclic

theorem toSettle (h : g.Begun ext told limit n s g') : g.ToSettle ext told limit (g.settleOrder n) g' := by
  have hmem := mem_settleOrder (g := g) (n := n) (Q := ReflTransGen g.DrawsOn n)
    (fun m hm hneeds d hd => hm.tail ⟨(Bool.and_eq_true_iff.mp hneeds).1, hd⟩)
    fun d hd => .single ⟨h.working.dirty, hd⟩
  exact
    { sound := h.working.sound
      awaits := h.awaits
      succeeds := h.succeeds
      final := by
        refine ProceedsOn.trans ?_ h.proceeds
        rw [h.settled]
        exact (still_setEvaluating false).proceeds
      sequenced := h.sequenced.of_concat.1
      anchored := h.order_anchored
      plain := fun m hm => h.plain m (hmem m hm).1
      needsWork := fun m hm => (hmem m hm).2
      busy := fun m d hm hd => h.clean_of_busy (hmem m hm).1 ⟨(Bool.and_eq_true_iff.mp (hmem m hm).2).1, hd⟩ }

/-- Each node that the node leads to is prepared when its turn comes. -/
theorem prepared_of_order (h : g.Begun ext told limit n s g') {before after : List NodeId}
    (horder : g.settleOrder n = before ++ m :: after) :
    ((settleAll (readWithin limit) before).run g).2.Prepared (readWithin limit) m :=
  h.toSettle.prepared (h.toSettle.settles horder) horder

/-- Then so is the node. -/
theorem prepared (h : g.Begun ext told limit n s g') : s.Prepared (readWithin limit) n := by
  have hsettles : g.Settles ext told (readWithin limit) (g.settleOrder n) _ :=
    h.toSettle.settles (List.append_nil (g.settleOrder n)).symm
  refine h.turn.prepared (h.plain n .refl) ?_ fun d hd => ?_
  · rw [h.settled, cell_modifyCell_congr Cell.evaluations (by exact fun _ => rfl)]
    exact hsettles.idle n h.lt h.sequenced.of_concat.2
  · rw [h.dirty_settled]
    exact hsettles.inputs_clean (fun d hd => h.sequenced.before _ [] n d rfl hd)
      (lt_size_of_inputs h.working.sound.accounts h.working.anchored)
      (fun d hd => h.clean_of_busy .refl ⟨h.working.dirty, hd⟩) d hd

end Begun

end Graph

namespace Workspace

variable {w : Workspace} {tasks : List Task} {n : NodeId}

/-- Whatever is asked for, and however far it has come: what is settled before a dirty node is read prepares it, and
each node that is settled has been prepared when its turn comes, provided that the formulas below that wait to be
built name properties of their scopes alone, and none like a unit, a function or a truth value, and that nothing goes
wrong. -/
theorem prepared_of_after {k : Nat} {steps : List Step} (h : after k (steps.map .perform) {} = (tasks, w))
    (hn : w.graph.Anchored (tasks.flatMap Task.holds ++ w.holds) n) (hdirty : (w.graph.cell n).dirty = true)
    (hplain : ∀ m, ReflTransGen w.graph.DrawsOn n m → w.graph.NamesPlainly m)
    (hok : w.graph.Succeeds (w.graph.read n).2) :
    let read := readWithin (2 * w.graph.cells.size + 1)
    let begun := w.graph.modifyCell n fun c => { c with evaluating := true }
    (∀ before m after, begun.settleOrder n = before ++ m :: after →
      ((settleAll read before).run begun).2.Prepared read m) ∧ ((settle read n).run w.graph).2.Prepared read n := by
  intro read begun
  obtain ⟨hsound, horderly⟩ := sound_after (P := fun w => w.graph.Orderly)
    (fun _ _ task _ hw hg => advance_endures Graph.endures_orderly task hw hg) orderly_empty k steps
  have hawaits := awaits_after k steps
  have hidle := idle_after k steps
  rw [h] at hsound horderly hawaits hidle
  have hstart := working_setEvaluating hsound hn hdirty
  have hnode : ∀ m, begun.node m = w.graph.node m := cell_modifyCell_congr Cell.node (by exact fun _ => rfl)
  have hdirty' : ∀ m, (begun.cell m).dirty = (w.graph.cell m).dirty :=
    cell_modifyCell_congr Cell.dirty (by exact fun _ => rfl)
  have hinputs : ∀ m, begun.inputs m = w.graph.inputs m := fun m => inputs_congr rfl (hnode m)
  have hdraws : begun.DrawsOn = w.graph.DrawsOn := by
    funext m d
    rw [DrawsOn, DrawsOn, hinputs, hdirty']
  have hread : (w.graph.read n).2 = ((evaluateNode read n).run.run ((settle read n).run w.graph).2).2 := by
    rw [Graph.read, run_readNode]
    show ((readWith read n).run.run w.graph).2 = _
    rw [run_readWith, if_pos hdirty]
    dsimp only
    rw [if_neg (by rw [hidle]; exact Bool.noConfusion)]
  have hbegun : begun.Begun (tasks.flatMap Task.holds ++ w.holds) (tasks.flatMap Task.told)
      (2 * w.graph.cells.size + 1) n ((settle read n).run w.graph).2 (w.graph.read n).2 :=
    { working := hstart
      awaits := hawaits.of_eq hnode fun m hd => (hdirty' m).trans hd
      settled := rfl
      read := hread
      orderly := horderly.read hsound hn
      succeeds := fun m hm => by
        rw [cell_modifyCell_congr Cell.evaluations (by exact fun _ => rfl)]
        rw [size_modifyCell] at hm
        exact hok m hm
      others := fun d hd he => by
        rw [cell_modifyCell_of_ne hd, hidle] at he
        cases he
      plain := fun m hm => by
        rw [hdraws] at hm
        exact (hplain m hm).congr rfl (hnode m) }
  exact ⟨fun before m after => hbegun.prepared_of_order, hbegun.prepared⟩

/-- "c" reads "b" and "a", and "b" reads "a". Two of the formulas wait to be built when "d" is still to be told that
"a" has changed. -/
def waitingSteps : List Step :=
  [.record "r" none, .expression "r" "a" "a" "1mm", .expression "r" "b" "b" "a + a", .expression "r" "c" "c" "b + a",
    .expression "r" "d" "d" "a * 2", .read "c", .read "d", .setFormula "b" "a * 3", .setFormula "c" "b + d",
    .setFormula "a" "2mm"]

theorem prepared_of_waiting :
    ∃ tasks w n, after 27 (waitingSteps.map .perform) {} = (tasks, w) ∧ tasks.flatMap Task.told ≠ [] ∧
      w.graph.Anchored (tasks.flatMap Task.holds ++ w.holds) n ∧ (w.graph.cell n).dirty = true ∧
        (∀ m, w.graph.NamesPlainly m) ∧ w.graph.Succeeds (w.graph.read n).2 ∧
          ((settle (readWithin (2 * w.graph.cells.size + 1)) n).run w.graph).2.Prepared
            (readWithin (2 * w.graph.cells.size + 1)) n := by
  have hreached : ∃ r, after 27 (waitingSteps.map .perform) {} = r := ⟨_, rfl⟩
  obtain ⟨⟨tasks, w⟩, hw⟩ := hreached
  have hrun : (fun next : Next => next.2.handles["c"]?.map fun n =>
      (next.1.flatMap Task.told, (next.2.graph.cell n).dirty,
        decide (∀ m < next.2.graph.cells.size, next.2.graph.NamesPlainly m),
        decide (next.2.graph.Succeeds (next.2.graph.read n).2))) (after 27 (waitingSteps.map .perform) {}) =
      some ([9], true, true, true) := by
    decide +kernel
  rw [hw] at hrun
  simp only [Option.map_eq_some_iff, Prod.mk.injEq, decide_eq_true_eq] at hrun
  obtain ⟨n, hn, htold, hdirty, hall, hok⟩ := hrun
  have hplain : ∀ m, w.graph.NamesPlainly m := fun m => by
    by_cases hm : m < w.graph.cells.size
    · exact hall m hm
    · exact fun scope source text tokens hnode => (hm (lt_size_of_node (by simp [hnode]))).elim
  have hanchored : w.graph.Anchored (tasks.flatMap Task.holds ++ w.holds) n :=
    .outside (List.mem_append_right _ (mem_holds_of_handle hn))
  exact ⟨tasks, w, n, hw, by simp [htold], hanchored, hdirty, hplain, hok,
    (prepared_of_after hw hanchored hdirty (fun m _ => hplain m) hok).2⟩

end Workspace

end FormulaGraph
