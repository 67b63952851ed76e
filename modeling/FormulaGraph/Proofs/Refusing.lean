import FormulaGraph.Proofs.Mirroring
import FormulaGraph.Proofs.Restoring
import FormulaGraph.Proofs.Trying

/-! Formulas that cannot be built, or that would have an expression read itself. Whoever reads the expression is told,
and finds everything as it was before the edit. -/

namespace FormulaGraph

open FormulaGraph.Graph Relation

/-- The scope, the text that waits and the old tree of an expression with an edit that is not built. -/
def Node.edited? : Node → Option (RecordId × String × Tree)
  | .expression scope (.edited text old) => some (scope, text, old)
  | _ => none

theorem Node.eq_of_edited? {node : Node} {scope : RecordId} {text : String} {old : Tree}
    (h : node.edited? = some (scope, text, old)) : node = .expression scope (.edited text old) := by
  cases node with
  | constant | input | calculation => cases h
  | expression scope source =>
    cases source with
    | unbuilt | built => cases h
    | edited =>
      cases h
      rfl

namespace Graph

variable {g s : Graph} {ext : List Hold} {told : List NodeId} {t n m root : NodeId} {scope : RecordId}
  {text : String} {old : Tree}

/-- The scope is gone, the formula cannot be built in it, or what it is built into reads the expression. -/
def refuses (g : Graph) (n : NodeId) (scope : RecordId) (text : String) : Bool :=
  !g.scopeIsLive scope ||
    match g.parse scope text with
    | (.ok root, g') => g'.dependsOn root n
    | (.error _, _) => true

theorem dirty_of_pending (h : g.Sound ext []) (hn : 0 < (g.cell n).owners) (hp : (g.node n).isPending = true) :
    (g.cell n).dirty = true := by
  by_contra hclean
  obtain ⟨v, -, hgiven⟩ := (h.coherent.fresh n hn (Bool.eq_false_iff.mpr hclean) List.not_mem_nil).value
  rw [not_pending_of_given? hgiven] at hp
  cases hp

/-- A read of an expression that builds its formula finds the other live nodes what they were, and leaves them so. -/
theorem alike_of_buildTree (hs : s.Sound ext []) (ho : s.Orderly) (ht : s.Anchored ext t)
    (hidle : (s.cell t).evaluating = false) (hdirty : (s.cell t).dirty = true)
    (honly : ∀ m, 0 < (s.cell m).owners → m ≠ t → (s.node m).isPending = false)
    (hbuild : (buildTree (readWithin (2 * s.cells.size + 1)) t scope text).run.run (s.settledFor t) = (.ok root, g)) :
    g.Sound (.node root :: ext) [] ∧ g.Orderly ∧ g.records = s.records ∧
      ∀ m, 0 < (s.cell m).owners → m ≠ t → g.node m = s.node m := by
  have hread : Reads (readWithin (2 * s.cells.size + 1)) := readWithin_reads _
  have hsettled := (working_settledFor hs ht hdirty hidle).sound
  obtain ⟨hrecords, hsize, hsame⟩ := extends_settledFor hs ht hdirty hidle
  have hlasts : ∀ {P : List NodeId → Graph → Prop}, Abides P → P [] s → P [t] g := fun hP hg => by
    have hbuilt := buildTree_lasts hP hread (readWithin_keeps hP _) hsettled (settledFor_lasts hP hs ht hdirty hg)
      t scope text
    rw [hbuild] at hbuilt
    exact hbuilt.1
  have hbuilt := buildTree_sound hread hsettled t scope text
  rw [hbuild] at hbuilt
  obtain ⟨hsound, hgrows⟩ := hbuilt
  refine ⟨hsound, hlasts endures_orderly.lasts.abides ho, hgrows.records.trans hrecords, fun m hm hmt => ?_⟩
  have hlt := lt_size_of_owners_pos hm
  have hbefore := hsame m hlt fun _ => honly m hm hmt
  exact (hgrows.node m trivial (Nat.lt_of_lt_of_le hlt hsize) (.inl (hbefore ▸ honly m hm hmt))).trans hbefore

/-- A formula that a read of its expression can build is not refused: what it names leads to other nodes only, and
they can be read as well while the expression is left alone. -/
theorem not_refuses_of_buildTree (hs : s.Sound ext []) (ho : s.Orderly) (ht : s.Anchored ext t)
    (hidle : ∀ x, (s.cell x).evaluating = false) (hdirty : (s.cell t).dirty = true)
    (honly : ∀ m, 0 < (s.cell m).owners → m ≠ t → (s.node m).isPending = false)
    (hbuild : (buildTree (readWithin (2 * s.cells.size + 1)) t scope text).run.run (s.settledFor t) = (.ok root, g)) :
    s.refuses t scope text = false := by
  obtain ⟨hsound, horderly, hrecords, hnode⟩ := alike_of_buildTree hs ho ht (hidle t) hdirty honly hbuild
  obtain ⟨hlive, hparse, hfree⟩ := parse_of_buildTree hbuild
  obtain ⟨tokens, e, htokens, hspells, hbuilt, hknown, hr⟩ :=
    parse_built (readWithin_reads _) (working_settledFor hs ht hdirty (hidle t)).sound (of_decide_eq_true hlive) hparse
  obtain ⟨rank, hf⟩ := hs.footing (C := s.Below ext t) ho hidle (fun n hn => hn.1.live hs.accounts)
    (fun n hn => (hn.2 n .refl).2) fun n d hn hd => hn.uses hd
  have hbelow : ∀ {r name n}, 0 < (g.record r).owners → g.resolve? r name = some (.node n) →
      ¬ ReflTransGen g.Uses n t → s.Below ext t n := by
    intro r name n hr hm hn
    rw [record, hrecords] at hr
    exact below_of_apart hs.accounts
      (anchored_of_resolve? hs.accounts hr ((resolve?_of_records hrecords r name).symm.trans hm)) hn hnode
      fun m _ hm hmt => honly m hm hmt
  have hsteady : ∀ m, s.Below ext t m → g.node m = s.node m := fun m hm =>
    hnode m (hm.1.live hs.accounts) (hm.2 m .refl).1
  have hvalue : ∀ {n v}, s.Below ext t n → g.Given (fun n => ¬ ReflTransGen g.Uses n t) n v →
      s.Evaluates n (.ok v) := by
    intro n v hn hgiven
    have hafter := hsound.evaluates_of_has horderly hgiven.2.1 hgiven.1 fun _ _ => List.not_mem_nil
    refine hafter.of_within (fun n d hn hd => ?_) (fun m hm => (hsteady m hm).symm) hn
    rw [Uses, dependencies, hsteady n hn] at hd
    exact hn.uses hd
  have hb := rebuilds_of_footing hf (deep_readNode hf) hrecords.symm
    (fun hn hd hdt => hn (.head hd hdt)) fun hr hm hgiven =>
      ⟨hbelow hr hm hgiven.2.2, hvalue (hbelow hr hm hgiven.2.2) hgiven⟩
  obtain ⟨root', s', hrun, hs', hroot⟩ := parse_again hf hb hsound hbelow hr htokens hspells hbuilt hknown
    (hsound.accounts.node_live List.mem_cons_self) fun hreach => hfree (dependsOn_iff.mpr hreach)
  have hscope : s.scopeIsLive scope = true := by
    rw [scopeIsLive, record, ← hrecords]
    exact decide_eq_true hr
  have hapart := hs'.not_dependsOn (lt_size_of_dirty hdirty) (fun ht => (ht.2 t .refl).1 rfl) hroot
  rw [refuses, hscope, Graph.parse, hrun]
  exact Bool.eq_false_iff.mpr hapart

/-- A refused edit is taken back when the expression is read, and the reader is told. -/
theorem takenBack_of_refuses (hs : g.Sound ext []) (ho : g.Orderly) (hn : g.Anchored ext n)
    (hidle : ∀ x, (g.cell x).evaluating = false) (hnode : g.node n = .expression scope (.edited text old))
    (honly : ∀ m, 0 < (g.cell m).owners → m ≠ n → (g.node m).isPending = false)
    (hrefused : g.refuses n scope text = true) :
    (∃ e, (g.read n).1 = .error e) ∧ (g.read n).2.node n = .expression scope (.built old) := by
  have hdirty := dirty_of_pending hs (hn.live hs.accounts) (by rw [hnode]; rfl)
  have hread : Reads (readWithin (2 * g.cells.size + 1)) := readWithin_reads _
  have hworking := working_settledFor hs hn hdirty (hidle n)
  have hmarked := (node_settledFor hs hn hdirty (hidle n)).trans hnode
  have hsound := buildTree_working hread hworking hmarked (by rw [hmarked]; rfl) text
  obtain ⟨hback, herror⟩ := read_of_currentTree hs hn hdirty (hidle n) hnode
  rw [run_currentTree] at hback herror
  dsimp only at hback herror
  generalize hbuild : (buildTree (readWithin (2 * g.cells.size + 1)) n scope text).run.run (g.settledFor n) = built
    at hsound hback herror
  rcases built with ⟨e | root, g'⟩
  · refine ⟨⟨e, herror e rfl⟩, hback.trans ?_⟩
    have hlt := lt_size_of_owners_pos (hsound.1.anchored.live hsound.1.sound.accounts)
    rw [Graph.node, cell_modifyCell_self hlt]
  · rw [not_refuses_of_buildTree hs ho hn hidle hdirty honly hbuild] at hrefused
    cases hrefused

/-- With the edit taken back, the same nodes are left as before, and hold the same: what was built of the refused
formula is gone. -/
theorem live_iff_of_takenBack (hs : g.Sound ext []) (ho : g.Orderly) (hn : g.Anchored ext n)
    (hnode : g.node n = .expression scope (.edited text old))
    (honly : ∀ m, 0 < (g.cell m).owners → m ≠ n → (g.node m).isPending = false)
    (hback : (g.read n).2.node n = .expression scope (.built old)) :
    (∀ m, 0 < ((g.read n).2.cell m).owners ↔ 0 < (g.cell m).owners) ∧
      (∀ m, 0 < (g.cell m).owners → m ≠ n → (g.read n).2.node m = g.node m) ∧
        ∀ p, (g.read n).2.tally p = g.tally p := by
  obtain ⟨hsound, hgrows, -⟩ := readNode_reads hs hn
  have hsame : ∀ m, 0 < (g.cell m).owners → m ≠ n → (g.read n).2.node m = g.node m := fun m hm hmn =>
    hgrows.node m trivial (lt_size_of_owners_pos hm) (.inl (honly m hm hmn))
  have hholds : ∀ m, 0 < (g.cell m).owners → ((g.read n).2.node m).holds = (g.node m).holds := fun m hm => by
    by_cases hmn : m = n
    · rw [hmn, hback, hnode]
      rfl
    · rw [hsame m hm hmn]
  have hlive := live_iff_of_spare hs.accounts ho hsound.accounts (ho.read hs hn) hgrows.records
    (readNode_balances hs hn) hholds
  exact ⟨hlive, hsame, tally_of_live hgrows.records hlive hholds⟩

/-- The next read comes to what the old tree comes to. -/
theorem evaluates_of_takenBack (hs : g.Sound ext []) (ho : g.Orderly) (hn : g.Anchored ext n)
    (hidle : ∀ x, (g.cell x).evaluating = false) (hnode : g.node n = .expression scope (.edited text old))
    (honly : ∀ m, 0 < (g.cell m).owners → m ≠ n → (g.node m).isPending = false)
    (hback : (g.read n).2.node n = .expression scope (.built old)) :
    ∃ r, g.Evaluates old.root r ∧ ((g.read n).2.read n).1 = r.mapError (·.attach old.text) := by
  obtain ⟨hsound, -, -⟩ : (g.read n).2.Sound ext [] ∧ _ := readNode_reads hs hn
  obtain ⟨hlive, hsame, -⟩ := live_iff_of_takenBack hs ho hn hnode honly hback
  have horderly := ho.read hs hn
  have hidle' := busyWith_nil.mp (endures_busyWith.read (busyWith_nil.mpr hidle) hs hn)
  generalize (g.read n).2 = g' at hback hsound hlive hsame horderly hidle' ⊢
  have hsteady : ∀ m, 0 < (g'.cell m).owners → (g'.node m).isPending = false := fun m hm => by
    by_cases hmn : m = n
    · rw [hmn, hback]
      rfl
    · rw [hsame m ((hlive m).mp hm) hmn]
      exact honly m ((hlive m).mp hm) hmn
  have hn' := (hlive n).mpr (hn.live hs.accounts)
  obtain ⟨r, hr, hresult⟩ := (evaluates_read hsound horderly hidle' hsteady hn').of_expression hback
  have hroot : g'.Uses n old.root := by
    rw [Uses, dependencies, hback]
    exact List.mem_singleton_self _
  -- Nothing that the old tree leads to is the expression itself.
  refine ⟨r, hr.of_within (R := fun m => TransGen g'.Uses n m ∧ 0 < (g'.cell m).owners) (fun m d hm hd => ?_)
    (fun m hm => ?_) ⟨.single hroot, hsound.accounts.dependency_live hn' hroot⟩, hresult⟩
  · exact ⟨hm.1.tail hd, hsound.accounts.dependency_live hm.2 hd⟩
  · exact (hsame m ((hlive m).mp hm.2) fun hmn => horderly.acyclic n (hmn ▸ hm.1)).symm

end Graph

namespace Workspace

variable {w : Workspace} {n : NodeId} {scope : RecordId} {text : String} {old : Tree}

/-- Of the new formula of "e" two calculations are made before the name is looked up that stands for nothing. -/
def refusedSteps : List Step :=
  [.record "r" none, .input "r" "a" "a" (.bool true), .expression "r" "e" "e" "!a && a", .read "e",
    .setFormula "e" "!a && a && nope"]

end Workspace

end FormulaGraph
