import FormulaGraph.Proofs.Pointing

/-! What a read reports. A failure behind an expression has been put in the formula that has failed before it
gets there, and a calculation hands on failures of its formula and of others that have their place already. -/

namespace FormulaGraph

open FormulaGraph.Graph

/-- Whatever fails behind a node that has been made for a formula concerns that formula. -/
structure Reports (R : RecordId → Prop) (F : String → Prop) (read : Reader) : Prop where
  reads : Reads read
  tracks : Keeps (fun _ g => g.Tracks R F) read
  fails {g : Graph} {ext : List Hold} {told : List NodeId} {n : NodeId} {formula : String} {e : FormulaError} :
    g.Sound ext told → g.Anchored ext n → g.Tracks R F → g.MadeFor R formula n →
      ((read n).run.run g).1 = .error e → e.Concerns R F ((read n).run.run g).2 formula

section

variable {R : RecordId → Prop} {F : String → Prop} {read : Reader} {g g' : Graph} {ext : List Hold}
  {told : List NodeId} {n : NodeId} {scope : RecordId} {formula : String} {e : FormulaError}

theorem Reports.keeps (hreports : Reports R F read) (h : g.Sound ext told) (hn : g.Anchored ext n) (hg : g.Tracks R F) :
    ((read n).run.run g).2.Tracks R F :=
  @Reports.tracks R F read hreports [] g ext told n h hn hg

theorem mapM_reports (hreports : Reports R F read) (nodes : List NodeId) (h : g.Sound ext told) (hg : g.Tracks R F)
    (hnodes : ∀ m ∈ nodes, g.Anchored ext m ∧ g.MadeFor R formula m)
    (he : ((nodes.mapM read).run.run g).1 = .error e) :
    e.Concerns R F ((nodes.mapM read).run.run g).2 formula := by
  induction nodes generalizing g with
  | nil => cases he
  | cons m nodes ih =>
    obtain ⟨hm, hmade⟩ := hnodes m List.mem_cons_self
    obtain ⟨hsound, hgrows, -⟩ := hreports.reads h hm
    have htracks := hreports.keeps h hm hg
    have hfirst := fun {e} => hreports.fails (e := e) h hm hg hmade
    rw [List.mapM_cons, run_bind_except] at he ⊢
    generalize (read m).run.run g = first at hsound hgrows htracks hfirst he ⊢
    obtain ⟨e' | v, g₁⟩ := first
    · cases he
      exact hfirst rfl
    · have hrest := ih hsound htracks fun d hd => by
        obtain ⟨hd, hmade⟩ := hnodes d (List.mem_cons_of_mem _ hd)
        exact ⟨hd.grows h.accounts hgrows, hmade.grows hgrows⟩
      dsimp only at he ⊢
      rw [run_bind_except] at he ⊢
      generalize (nodes.mapM read).run.run g₁ = rest at hrest he ⊢
      obtain ⟨e' | values, g₂⟩ := rest
      · cases he
        exact hrest rfl
      · cases he

/-- Whoever builds the formula holds nodes that have been made for it. -/
def attributingContract (R : RecordId → Prop) (F : String → Prop) (g : Graph) (ext : List Hold)
    (told : List NodeId) (text : String) : Contract Graph NodeId RecordId where
  formula := text
  holds nodes s := g.Holding ext told nodes s ∧ s.Tracks R F ∧ ∀ n ∈ nodes, s.MadeFor R text n
  opens r := 0 < (g.record r).owners ∧ R r
  fails s e := e.Concerns R F s text

theorem graphBuilder_honours_attributing (hreports : Reports R F read) (text : String) :
    (graphBuilder read).Honours (graphBuilder read) (attributingContract R F g ext told text) := by
  have hheld := graphBuilder_keeps hreports.reads g ext told
  exact
    { recount := fun hcount h => ⟨hheld.recount hcount h.1, h.2.1, fun n hn => h.2.2 n (mem_of_countP hcount hn)⟩
      literal := fun {l s} v h => by
        refine ⟨hheld.literal v h.1, h.2.1.addCell (some v) rfl, fun n hn => ?_⟩
        rcases List.mem_cons.mp hn with rfl | hn
        · refine @IsConstant.madeFor R _ _ text v ⟨Nat.lt_of_lt_of_eq (Nat.lt_succ_self _) (size_addCell _ _).symm, ?_⟩
          show ((s.addCell (.constant v) (some v)).2.cell s.cells.size).node = _
          rw [cell_addCell, if_pos rfl]
        · exact (h.2.2 n hn).grows (grows_addCell _ _)
      calculate := fun {arguments l s operation offset lexeme} h ht hm => by
        obtain ⟨hadded, hgrown⟩ := h.1.addCalculation operation offset
        obtain ⟨hn, hsize, tickets, hcell⟩ := node_addCalculation s operation arguments offset
        have htracked := h.2.1.addCalculation operation arguments offset
        have hnew : (s.addCalculation operation arguments offset).2.MadeFor R text
            (s.addCalculation operation arguments offset).1 := by
          refine .calculation ⟨?_, tickets, ?_⟩ ht hm fun d hd =>
            (h.2.2 d (List.mem_append_left _ hd)).grows hgrown
          · rw [hn, hsize]
            exact Nat.lt_succ_self _
          · rw [hn, Graph.node, hcell]
        obtain ⟨-, hgrows, -⟩ := hreports.reads hadded (.outside List.mem_cons_self)
        have hafter := hreports.keeps hadded (.outside List.mem_cons_self) htracked
        have hfails := fun {e} => hreports.fails (e := e) hadded (.outside List.mem_cons_self) htracked hnew
        have hkept := hheld.calculate operation offset h.1
        have hothers : ∀ n ∈ l, ∀ g', (s.addCalculation operation arguments offset).2.Grows g' → g'.MadeFor R text n :=
          fun n hn g' hg' => (h.2.2 n (List.mem_append_right _ hn)).grows (hgrown.trans hg')
        refine ⟨rfl, ?_⟩
        rw [run_calculate] at hkept ⊢
        generalize s.addCalculation operation arguments offset = added at *
        generalize (read added.1).run.run added.2 = result at hgrows hafter hfails hkept ⊢
        obtain ⟨e | v, g'⟩ := result
        · exact ⟨⟨hkept, hafter.fades (fades_release (by simp [Hold.isRecord])),
            fun n hn => (hothers n hn g' hgrows).grows grows_release_node⟩,
              (hfails rfl).retains grows_release_node.retains⟩
        · refine ⟨hkept, hafter, fun n hn => ?_⟩
          rcases List.mem_cons.mp hn with rfl | hn
          · exact hnew.grows hgrows
          · exact hothers n hn g' hgrows
      kind := fun {a l s} hmem h => by
        have hanchored : s.Anchored (l.map .node ++ ext) a := .held hmem
        obtain ⟨-, hgrows, -⟩ := hreports.reads h.1.1 hanchored
        have hafter := hreports.keeps h.1.1 hanchored h.2.1
        have hfails := fun {e} => hreports.fails (e := e) h.1.1 hanchored h.2.1 (h.2.2 a hmem)
        have hkept := hheld.kind hmem h.1
        rw [run_kind] at hkept ⊢
        generalize (read a).run.run s = result at hgrows hafter hfails hkept ⊢
        refine ⟨rfl, ⟨hkept, hafter, fun n hn => (h.2.2 n hn).grows hgrows⟩, fun e he => ?_⟩
        obtain ⟨e' | v, s'⟩ := result
        · cases he
          exact hfails rfl
        · cases he
      resolve := fun {r l s} name hr h => by
        obtain ⟨hresolved, hopen⟩ := hheld.resolve name hr.1 h.1
        have hlive := h.1.2.record_live hr.1
        have hfound : ∀ {member}, s.resolve? r name = some member → s.Attributes R text member.found := fun hm =>
          h.2.1.attributes h.1.1.accounts hlive hr.2 hm text
        rw [run_resolve] at hresolved hopen ⊢
        rcases hm : s.resolve? r name with _ | ⟨n | r' | items⟩
        · rw [hm] at hresolved
          exact ⟨⟨hresolved, h.2⟩, fun _ he => by cases he⟩
        · rw [hm] at hresolved
          have hretained := fades_retain (live_of_resolve? h.1.1.accounts hlive hm)
          refine ⟨⟨hresolved, h.2.1.fades hretained, fun m hn => ?_⟩, fun _ he => by cases he⟩
          rcases List.mem_cons.mp hn with rfl | hn
          · exact (hfound hm : s.MadeFor R text m).grows grows_retain_node
          · exact (h.2.2 m hn).grows grows_retain_node
        · rw [hm] at hresolved hopen
          refine ⟨⟨hresolved, h.2⟩, fun s' he => ⟨hopen s' he, ?_⟩⟩
          cases he
          exact (hfound hm).1
        · rw [hm] at hresolved
          exact ⟨⟨hresolved, h.2⟩, fun _ he => by cases he⟩
      discard := fun {as l s} h => by
        have hrecords := isRecord_of_mem_nodes as
        exact ⟨⟨hheld.discard h.1, h.2.1.fades (fades_release hrecords), fun n hn =>
          (h.2.2 n (List.mem_append_right _ hn)).grows (grows_release hrecords)⟩, fun e he =>
            he.retains (grows_release hrecords).retains⟩
      same := ⟨rfl, rfl, rfl⟩
      fault := fun _ ht hb => .here (.parsed ht hb)
      member := fun _ ht => .here (.unknownMember ht)
      nothing := fun _ hblank => .here (.blank hblank) }

theorem parse_reports (hreports : Reports R F read) (h : g.Sound ext told) (hg : g.Tracks R F)
    (hs : g.scopeIsLive scope = true) (hr : R scope) {text : String} (hF : F text) :
    match ((graphBuilder read).parse scope text).run g with
    | (.ok root, g') => g'.Tracks R F ∧ g'.MadeFor R text root
    | (.error e, g') => e.Points R F g' := by
  have hlive : 0 < (g.record scope).owners := of_decide_eq_true hs
  have hnone : (attributingContract R F g ext told text).holds [] g :=
    ⟨⟨h, .refl g⟩, hg, fun _ hn => (List.not_mem_nil hn).elim⟩
  obtain ⟨-, hparse⟩ := (graphBuilder_honours_attributing hreports text).parse
    (show (attributingContract R F g ext told text).opens scope from ⟨hlive, hr⟩) (fun e he => by
      obtain ⟨_, _, _, _, _, place, fault, _, _, _, _, _, hplace⟩ := tokenize_error_iff.mp he
      subst hplace
      exact .here (.lexed he)) hnone
  dsimp only [attributingContract] at hparse
  generalize ((graphBuilder read).parse scope text).run g = parsed at hparse ⊢
  obtain ⟨e | root, g'⟩ := parsed
  · obtain ⟨-, raw, hraw, rfl⟩ := hparse
    exact hraw.attach hF
  · exact ⟨hparse.2.1, hparse.2.2 root List.mem_cons_self⟩

theorem buildTree_reports (hreports : Reports R F read) (h : g.Sound ext told) (hg : g.Tracks R F) (hr : R scope)
    (n : NodeId) {text : String} (hF : F text) (he : ((buildTree read n scope text).run.run g).1 = .error e) :
    e.Points R F ((buildTree read n scope text).run.run g).2 := by
  rw [run_buildTree] at he ⊢
  by_cases hs : g.scopeIsLive scope = true
  · have hparse := parse_reports hreports h hg hs hr hF
    rw [if_pos hs] at he ⊢
    generalize ((graphBuilder read).parse scope text).run g = parsed at hparse he ⊢
    obtain ⟨e' | root, g'⟩ := parsed
    · cases he
      exact hparse
    · dsimp only at he ⊢
      split at he
      · cases he
        exact .nowhere (.inr hF) .cycle
      · cases he
  · rw [if_neg hs] at he
    cases he
    exact FormulaError.points_of_unplaced .scopeGone

theorem currentTree_reports (hreports : Reports R F read) (h : g.Working ext told n g) (hg : g.Tracks R F)
    {source : Source} (hnode : g.node n = .expression scope source) (hr : R scope)
    (he : ((currentTree read n scope source).run.run g).1 = .error e) :
    e.Points R F ((currentTree read n scope source).run.run g).2 := by
  have hF : ∀ text ∈ source.texts, F text := fun text htext =>
    hg.formulas ⟨n, scope, source, h.anchored.live h.sound.accounts, hnode, hr, htext⟩
  rw [run_currentTree] at he ⊢
  cases source with
  | built tree => cases he
  | unbuilt text =>
    have hbuilt := fun {e} => buildTree_reports (e := e) hreports h.sound hg hr n (hF text List.mem_cons_self)
    dsimp only at he ⊢
    generalize (buildTree read n scope text).run.run g = built at hbuilt he ⊢
    obtain ⟨e' | root, g'⟩ := built
    · cases he
      exact hbuilt rfl
    · cases he
  | edited text old =>
    have hbuilt := fun {e} => buildTree_reports (e := e) hreports h.sound hg hr n (hF text List.mem_cons_self)
    have hworking := buildTree_working hreports.reads h hnode (by rw [hnode]; rfl) text
    dsimp only at he ⊢
    generalize (buildTree read n scope text).run.run g = built at hbuilt hworking he ⊢
    obtain ⟨e' | root, g'⟩ := built
    · cases he
      refine (hbuilt rfl).retains (retains_setNode ?_)
      rw [hworking.2, hnode]
      rfl
    · cases he

/-- A calculation hands failures on, and an expression puts them in their formula. -/
theorem compute_reports (hreports : Reports R F read) (h : g.Working ext told n g) (hg : g.Tracks R F)
    (hn : g.MadeFor R formula n) (he : ((compute read n).run.run g).1 = .error e) :
    e.Concerns R F ((compute read n).run.run g).2 formula := by
  rw [run_compute] at he ⊢
  cases hn with
  | calculation hcalculates ht hm hs =>
    rename_i operation operands offset lexeme
    have hnode := hcalculates
    obtain ⟨-, tickets, hnode⟩ := hnode
    have hoperands : ∀ d ∈ operands, g.Anchored ext d := fun d hd =>
      h.anchored.dependency (by rw [hnode]; rfl) (by rw [dependencies, hnode]; exact hd)
    have hmapM := fun {e} => mapM_reports (e := e) hreports operands h.sound hg fun d hd => ⟨hoperands d hd, hs d hd⟩
    obtain ⟨-, hgrows, hvalues⟩ := mapM_read hreports.reads operands h.sound hoperands
    rw [hnode] at he ⊢
    dsimp only at he ⊢
    generalize (operands.mapM read).run.run g = r at hmapM hgrows hvalues he ⊢
    obtain ⟨e' | values, g'⟩ := r
    · cases he
      exact hmapM rfl
    · obtain ⟨hclean, hcached⟩ := hvalues values rfl
      dsimp only at he ⊢
      rw [applyAt] at he
      split at he
      · cases he
      next fault hf =>
        cases he
        exact .here (.applied (hcalculates.step hgrows.size fun m => hgrows.frame m trivial) ht hm
          (fun d hd => (hs d hd).grows hgrows) (forall₂_of_mapM hcached hclean) hf)
  | given hlt hwithin =>
    cases hnode : g.node n with
    | constant value | input value =>
      rw [hnode] at he
      cases he
    | calculation =>
      rw [hnode] at hwithin
      exact hwithin.elim
    | expression scope source =>
      rw [hnode] at he hwithin
      have hcurrent := fun {e} => currentTree_reports (e := e) hreports h hg hnode hwithin
      have htracks := @currentTree_lasts _ [] g ext told n scope source read (abides_tracks R F) hreports.reads
        (@Reports.tracks R F read hreports) h hg hnode
      have hworking := currentTree_working hreports.reads h hnode
      dsimp only at he ⊢
      generalize (currentTree read n scope source).run.run g = r at hcurrent htracks hworking he ⊢
      obtain ⟨e' | tree, g'⟩ := r
      · cases he
        exact .elsewhere (hcurrent rfl)
      · obtain ⟨hworking, htree⟩ := hworking
        have hnode' := htree tree rfl
        have hlive := hworking.anchored.live hworking.sound.accounts
        have hroot := htracks.attributed n scope (.built tree) tree hlive hnode' hwithin rfl
        have hF := htracks.formulas ⟨n, scope, .built tree, hlive, hnode', hwithin, List.mem_cons_self⟩
        have hdependency : tree.root ∈ g'.dependencies n := by
          rw [dependencies, hnode']
          exact List.mem_singleton_self _
        have hanchored := hworking.anchored.dependency (by rw [hnode']; rfl) hdependency
        have hfails := fun {e} => hreports.fails (e := e) hworking.sound hanchored htracks hroot
        dsimp only at he ⊢
        generalize (read tree.root).run.run g' = result at hfails he ⊢
        obtain ⟨e' | v, g''⟩ := result
        · cases he
          exact .elsewhere ((hfails rfl).attach hF)
        · cases he

theorem evaluateNode_reports (hreports : Reports R F read) (h : g.Sound ext told) (hn : g.Anchored ext n)
    (hdirty : (g.cell n).dirty = true) (hg : g.Tracks R F) (hmade : g.MadeFor R formula n)
    (he : ((evaluateNode read n).run.run g).1 = .error e) :
    e.Concerns R F ((evaluateNode read n).run.run g).2 formula := by
  rw [run_evaluateNode] at he ⊢
  by_cases hbusy : (g.cell n).evaluating = true
  · rw [if_pos hbusy] at he
    cases he
    exact .nowhere .cycle
  · have hnode : ∀ m, (g.modifyCell n fun c => { c with evaluating := true }).node m = g.node m :=
      cell_modifyCell_congr Cell.node (by exact fun _ => rfl)
    have hmade' : (g.modifyCell n fun c => { c with evaluating := true }).MadeFor R formula n :=
      hmade.step (Nat.le_of_eq size_modifyCell.symm) fun m _ => congrArg Node.frame (hnode m)
    have hcomputed := compute_reports (e := e) hreports (working_setEvaluating h hn hdirty) (hg.setEvaluating n true)
      hmade'
    rw [if_neg hbusy] at he ⊢
    dsimp only at he ⊢
    generalize (compute read n).run.run (g.modifyCell n fun c => { c with evaluating := true }) = computed
      at hcomputed he ⊢
    obtain ⟨result, g'⟩ := computed
    cases he
    exact (hcomputed rfl).retains retains_keepResult_error

theorem readWith_reports (hreports : Reports R F read) : Reports R F (readWith read) where
  reads := readWith_reads hreports.reads
  tracks := @readWith_keeps _ read (abides_tracks R F) hreports.reads (@Reports.tracks R F read hreports)
  fails {g ext told n formula e} h hn hg hmade he := by
    rw [run_readWith] at he ⊢
    by_cases hdirty : (g.cell n).dirty = true
    · rw [if_pos hdirty] at he ⊢
      dsimp only at he ⊢
      by_cases hbusy : (g.cell n).evaluating = true
      · rw [if_pos hbusy] at he
        cases he
        exact .nowhere .cycle
      · rw [if_neg hbusy] at he ⊢
        obtain ⟨hsound, hgrows, hdirty'⟩ := settle_sound hreports.reads h hn hdirty (Bool.eq_false_iff.mpr hbusy)
        have hsettled := @settle_lasts _ [] g ext told n read (abides_tracks R F) hreports.reads
          (@Reports.tracks R F read hreports) h hn hdirty hg
        exact evaluateNode_reports hreports hsound (hn.grows h.accounts hgrows) hdirty' hsettled (hmade.grows hgrows)
          he
    · obtain ⟨v, hv⟩ := h.coherent.cached n (hn.live h.accounts) (Bool.eq_false_iff.mpr hdirty)
      rw [if_neg hdirty, hv] at he
      cases he

/-- By induction on how deep a read may go. -/
theorem readWithin_reports (R : RecordId → Prop) (F : String → Prop) (limit : Nat) :
    Reports R F (readWithin limit) := by
  induction limit with
  | zero =>
    refine ⟨readWithin_reads 0, @readWithin_keeps _ (abides_tracks R F) 0, fun _ _ _ _ he => ?_⟩
    cases he
    exact .nowhere .depth
  | succ limit ih => exact readWith_reports ih

theorem readNode_reports (R : RecordId → Prop) (F : String → Prop) : Reports R F readNode where
  reads := readNode_reads
  tracks := @readNode_keeps _ (abides_tracks R F)
  fails {g ext told n formula e} h hn hg hmade he := by
    rw [run_readNode] at he ⊢
    exact (readWithin_reports R F g.depthLimit).fails h hn hg hmade he

end

end FormulaGraph
