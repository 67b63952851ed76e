import FormulaGraph.Proofs.Incremental
import FormulaGraph.Proofs.Retrying

/-! A formula that is worked out in the graph, where a tree is built for it and read, comes to what its tokens
come to by the results that the nodes it names are read to have. -/

namespace FormulaGraph

open FormulaGraph.Graph

/-- What names stand for by the results of reading nodes. -/
def Graph.readings (g : Graph) : Results RecordId := g.results fun n => (g.read n).1

theorem bind_value?_eq_some_iff {α σ : Type} {found : Option (Found α σ)} {a : α} :
    found.bind Found.value? = some a ↔ found = some (.value a) := by
  rw [Option.bind_eq_some_iff]
  refine ⟨fun ⟨found, hfound, hvalue⟩ => hfound.trans (congrArg some (Found.eq_of_value? hvalue)), fun h => ?_⟩
  exact ⟨_, h, rfl⟩

theorem Returns.of_run_id {α β : Type} {x : Parsing Id α β} {Q : β → Prop} (h : Returns x Q) {b : β}
    (hb : x.run = .ok b) : Q b := by
  obtain ⟨y, rfl⟩ := h
  rw [ExceptT.run_map] at hb
  generalize y.run = r at hb
  obtain e | c := r
  · cases hb
  · cases hb
    exact c.2

/-- Tokens that come to a value are spelled by the grammar. -/
theorem spells_of_evaluateTokens {σ : Type} {results : Results σ} {scope : σ} {tokens : List Token} {v : Value}
    (h : evaluateTokens results scope tokens = .ok v) : ∃ e, Spells 0 e tokens := by
  rw [evaluateTokens] at h
  cases hrun : ((fixedBuilder results).takeAll scope {} tokens).run with
  | ok result => exact (returns_takeAll (fixedBuilder results) scope tokens).of_run_id hrun
  | error failure =>
    rw [hrun] at h
    cases h

namespace Graph

/-- No live node waits to be built. -/
def Steady (g : Graph) : Prop := ∀ m, 0 < (g.cell m).owners → (g.node m).isPending = false

variable {g g' : Graph} {n : NodeId}

theorem Steady.of_node (h : g.Steady) (hnode : ∀ m, g'.node m = g.node m)
    (hlive : ∀ m, 0 < (g'.cell m).owners → 0 < (g.cell m).owners) : g'.Steady := fun m hm => by
  rw [hnode]
  exact h m (hlive m hm)

theorem Steady.modifyCell (h : g.Steady) {f : Cell → Cell} (hnode : ∀ c, (f c).node = c.node)
    (howners : ∀ c, (f c).owners = c.owners) : (g.modifyCell n f).Steady :=
  h.of_node (cell_modifyCell_congr Cell.node hnode) fun m hm => by
    rwa [cell_modifyCell_congr Cell.owners howners] at hm

theorem Steady.subscribeAll (h : g.Steady) (sources : List NodeId) (l : Listener) :
    (g.subscribeAll sources l).2.Steady :=
  h.of_node (alike_subscribeAll sources l).node fun m hm => by rwa [owners_subscribeAll] at hm

theorem Steady.addCell (h : g.Steady) {node : Node} (cache : Option Value) (hnode : node.isPending = false) :
    (g.addCell node cache).2.Steady := fun m hm => by
  rw [Graph.node, cell_addCell]
  rw [cell_addCell] at hm
  by_cases hmn : m = g.cells.size
  · rw [if_pos hmn]
    exact hnode
  · rw [if_neg hmn] at hm ⊢
    exact h m hm

theorem Steady.setNode (h : g.Steady) {node : Node} (hnode : node.isPending = false) :
    (g.modifyCell n fun c => { c with node }).Steady := fun m hm => by
  rw [cell_modifyCell_congr Cell.owners (by exact fun _ => rfl)] at hm
  rw [Graph.node, cell_modifyCell]
  split
  · exact hnode
  · exact h m hm

/-- None of the moves of a read leaves a live node behind that waits to be built. -/
theorem abides_steady : Abides fun _ g => g.Steady where
  fades h hf := h.of_node hf.node hf.live
  constant v h := h.addCell (some v) rfl
  calculation operation offset h _ := (h.subscribeAll _ _).addCell none rfl
  start n h := h.modifyCell (by exact fun _ => rfl) (by exact fun _ => rfl)
  finish h := h.modifyCell (by exact fun _ => rfl) (by exact fun _ => rfl)
  takeBack h _ := h.setNode rfl
  install {busy g ext n root scope source text} h _ _ _ _ _ _ _ := by
    rw [run_installTree]
    refine ((h.subscribeAll [root] (.node n)).setNode rfl).of_node (fun m => ?_) thins_release.live
    exact (alike_release (isRecord_of_mem_oldHolds source.tree?)).node m

end Graph

section

variable {g g' : Graph} {ext : List Hold} {n root : NodeId} {scope : RecordId} {text : String}
  {tokens : List Token} {e : Expr} {v : Value}

theorem Graph.EvaluatesAll.forall₂ {nodes : List NodeId} {values : List Value}
    (h : g.EvaluatesAll nodes (.ok values)) : List.Forall₂ (fun n v => g.Evaluates n (.ok v)) nodes values := by
  induction nodes generalizing values with
  | nil =>
    cases h
    exact .nil
  | cons n nodes ih =>
    generalize hr : Except.ok values = r at h
    cases h with
    | failed h => cases hr
    | @cons _ _ v r h hs =>
      cases r with
      | error e => cases hr
      | ok rest =>
        cases hr
        exact .cons h (ih hs)

/-- What a node comes to follows from what its operands come to. -/
theorem Graph.derives_evaluates : g.Derives fun n v => g.Evaluates n (.ok v) where
  constant hn hv := Except.ok.inj (hv.of_constant hn.2)
  operands {n operation operands offset v} h hv := by
    obtain ⟨-, tickets, hnode⟩ := h
    obtain ⟨rs, hs, he⟩ := hv.of_calculation hnode
    cases rs with
    | error e => cases he
    | ok values =>
      have happly : applyAt operation values offset = .ok v := he.symm
      exact ⟨values, toOption_of_applyAt happly, hs.forall₂⟩

/-- Where nothing waits to be built or is being worked out, formulas are worked out by what is read. -/
structure Graph.Settled (g : Graph) (ext : List Hold) : Prop where
  sound : g.Sound ext []
  orderly : g.Orderly
  idle (x : NodeId) : (g.cell x).evaluating = false
  steady : g.Steady

namespace Graph.Settled

theorem evaluates_read (h : g.Settled ext) (hn : 0 < (g.cell n).owners) : g.Evaluates n (g.read n).1 :=
  FormulaGraph.evaluates_read h.sound h.orderly h.idle h.steady hn

theorem of_parse (h : g.Settled ext) (hs : g.scopeIsLive scope = true)
    (hparse : g.parse scope text = (.ok root, g')) : g'.Settled (.node root :: ext) := by
  obtain ⟨hsound, -⟩ := h.sound.of_parse hs hparse
  have hbusy := endures_busyWith.parse (busyWith_nil.mpr h.idle) h.sound hs text
  have hsteady := @parse_lasts _ [] g ext [] scope readNode abides_steady readNode_reads
    (@readNode_keeps _ abides_steady) h.sound hs h.steady text
  rw [hparse] at hbusy
  rw [Graph.parse] at hparse
  rw [hparse] at hsteady
  exact ⟨hsound, h.orderly.of_parse h.sound hs hparse, busyWith_nil.mp hbusy, hsteady⟩

/-- A live node comes to the same in a graph that has grown. -/
theorem evaluates_grows (h : g.Settled ext) (hgrows : g.Grows g') (hn : 0 < (g.cell n).owners) {r : Checked Value}
    (hr : g.Evaluates n r) : g'.Evaluates n r :=
  hr.of_within (fun _ _ hm hd => h.sound.accounts.dependency_live hm hd)
    (fun m hm => hgrows.node m trivial (lt_size_of_owners_pos hm) (.inl (h.steady m hm))) hn

/-- Names stand for the same in a graph that has grown. -/
theorem answers (h : g.Settled ext) (hgrows : g.Grows g') :
    g'.Answers (fun n v => g'.Evaluates n (.ok v)) g.readings := by
  have hsame : g.readings = g'.results fun n => (g.read n).1 := by
    funext r name
    rw [readings, results, results, resolve?_of_records hgrows.records]
  rw [hsame]
  refine answers_results fun {r name n} hr hm v => ?_
  rw [resolve?_of_records hgrows.records] at hm
  rw [record, hgrows.records] at hr
  have hread := h.evaluates_grows hgrows (live_of_resolve? h.sound.accounts hr hm)
    (h.evaluates_read (live_of_resolve? h.sound.accounts hr hm))
  exact ⟨fun he => he ▸ hread, fun hv => hread.unique hv⟩

/-- What a formula comes to in the graph, its tokens come to. -/
theorem evaluateTokens_of_evaluateIn (h : g.Settled ext) (hs : g.scopeIsLive scope = true)
    (htokens : tokenize text = .ok tokens) (hv : (g.evaluateIn scope text).1 = .ok v) :
    evaluateTokens g.readings scope tokens = .ok v := by
  have hr : 0 < (g.record scope).owners := of_decide_eq_true hs
  rw [evaluateIn] at hv
  rcases hparse : g.parse scope text with ⟨e | root, g'⟩
  · rw [hparse] at hv
    cases hv
  · rw [hparse] at hv
    have hafter := h.of_parse hs hparse
    obtain ⟨-, hgrows⟩ := h.sound.of_parse hs hparse
    obtain ⟨tokens', e, htokens', hspells, hbuilt, -, hr'⟩ := parse_built readNode_reads h.sound hr hparse
    cases htokens.symm.trans htokens'
    -- The names that `g'` looked up have the values in it that they are read to have in `g`.
    have hroot := hafter.evaluates_read (hafter.sound.accounts.node_live List.mem_cons_self)
    dsimp only at hv
    rw [hv] at hroot
    have hmeaning := hbuilt.meaning (h.answers hgrows) derives_evaluates hafter.sound.accounts hr' e
      (show Gives _ _ (.value v) from hroot)
    rwa [← toOption_eq_some, toOption_evaluateTokens _ _ hspells, bind_value?_eq_some_iff]

/-- What a tree means, its formula comes to in the graph. -/
theorem evaluateIn_of_meaning (h : g.Settled ext) (hs : g.scopeIsLive scope = true)
    (htokens : tokenize text = .ok tokens) (hspells : Spells 0 e tokens)
    (hmeaning : e.meaning g.readings scope = some (.value v)) : (g.evaluateIn scope text).1 = .ok v := by
  obtain ⟨rank, hf⟩ := h.sound.footing h.orderly h.idle (fun _ hn => hn) h.steady
    fun _ _ hn hd => h.sound.accounts.dependency_live hn hd
  have hrecalls := recalls_of_footing hf fun {_ _ n v} hr hm (hv : g.Evaluates n (.ok v)) =>
    ⟨live_of_resolve? h.sound.accounts hr hm, hv⟩
  have hbuild := (constructs_of_footing hf (deep_readNode hf) rfl).of_meaning hrecalls (h.answers (.refl g))
    h.sound.accounts (of_decide_eq_true hs) e hf.underway hmeaning
  have hproduces : Produces ((graphBuilder readNode).build scope e >>= Entry.only) g fun root g' =>
      Underway g (fun n => 0 < (g.cell n).owners) rank g.cells.size g' ∧
        Worth g (fun n => 0 < (g.cell n).owners) g' root v :=
    hbuild.bind fun x g₁ ⟨hl, hx⟩ => (only_produces hx).mono fun root g₂ ⟨hsame, hroot⟩ =>
      hsame ▸ ⟨hl.1, hroot⟩
  obtain ⟨root, g', hrun, hunderway, hworth⟩ := hproduces
  have hparse : g.parse scope text = (.ok root, g') :=
    (run_parse_ok_iff _ scope text).mpr ⟨tokens, htokens, (run_takeAll_iff _ scope hspells).mpr hrun⟩
  rw [evaluateIn, hparse]
  exact (read_of_worth hf (deep_readNode hf) hunderway hworth.1 hworth.2.1).1

/-- A formula comes to what its tokens come to by what its names are read to have. -/
theorem evaluateIn_eq_ok_iff (h : g.Settled ext) (hs : g.scopeIsLive scope = true)
    (htokens : tokenize text = .ok tokens) :
    (g.evaluateIn scope text).1 = .ok v ↔ evaluateTokens g.readings scope tokens = .ok v := by
  refine ⟨h.evaluateTokens_of_evaluateIn hs htokens, fun hv => ?_⟩
  obtain ⟨e, hspells⟩ := spells_of_evaluateTokens hv
  refine h.evaluateIn_of_meaning hs htokens hspells ?_
  rwa [← toOption_eq_some, toOption_evaluateTokens _ _ hspells, bind_value?_eq_some_iff] at hv

end Graph.Settled

namespace Workspace

variable {w : Workspace}

/-- In every state that is reached and in which no formula waits to be built, a formula comes to the value that
its tree means if names stand for what they are read to have. It fails if the tree means no value. -/
theorem evaluateIn_eq_ok_iff_meaning {limit : Nat} {steps : List Step}
    (h : Workspace.run limit {} (steps.map .perform) = some w)
    (hsteady : ∀ m, w.graph.isLive m = true → (w.graph.node m).isPending = false)
    (hs : w.graph.scopeIsLive scope = true) (htokens : tokenize text = .ok tokens) (hspells : Spells 0 e tokens)
    (v : Value) :
    (w.graph.evaluateIn scope text).1 = .ok v ↔ e.meaning w.graph.readings scope = some (.value v) := by
  have hsettled : w.graph.Settled w.holds :=
    ⟨sound_of_run h, orderly_of_run h, idle_of_run h, fun m hm => hsteady m (decide_eq_true hm)⟩
  rw [hsettled.evaluateIn_eq_ok_iff hs htokens, ← toOption_eq_some, toOption_evaluateTokens _ _ hspells,
    bind_value?_eq_some_iff]

end Workspace

end

end FormulaGraph
