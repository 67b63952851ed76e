import FormulaGraph.Proofs.Rejecting
import FormulaGraph.Proofs.Repeating

/-! Reading an expression whose formula has been tried out before. As long as nothing below the formula waits to
be built, what has been tried out succeeds again, and the formula is not taken back. -/

namespace FormulaGraph

open FormulaGraph.Graph Relation

namespace Graph

variable {g s : Graph} {ext ext' : List Hold} {told : List NodeId} {t n d root : NodeId} {scope : RecordId}
  {source : Source} {v : Value}

/-- Nothing that the node reads, directly or not, is `t` or waits to be built. -/
def Below (s : Graph) (ext : List Hold) (t n : NodeId) : Prop :=
  s.Anchored ext n ∧ ∀ d, ReflTransGen s.Uses n d → d ≠ t ∧ (s.node d).isPending = false

/-- How a read of `t` finds the graph when it comes to build the formula. -/
def settledFor (s : Graph) (t : NodeId) : Graph :=
  ((settle (readWithin (2 * s.cells.size + 1)) t).run s).2.modifyCell t fun c => { c with evaluating := true }

theorem Below.uses (h : s.Below ext t n) (hd : s.Uses n d) : s.Below ext t d :=
  ⟨h.1.dependency (h.2 n .refl).2 hd, fun m hm => h.2 m (.head hd hm)⟩

/-- The ranks of what has been there before, with `top` for what is made and `t` above all. -/
def rankWith (base : Graph) (rank : NodeId → Nat) (top : Nat) (t n : NodeId) : Nat :=
  if base.cells.size ≤ n then top else if n = t then top + 1 else rank n

theorem rankWith_old {base : Graph} {rank : NodeId → Nat} {top : Nat} (hn : n < base.cells.size) (hne : n ≠ t) :
    base.rankWith rank top t n = rank n := by
  rw [rankWith, if_neg (Nat.not_le_of_lt hn), if_neg hne]

/-- Live nodes that read only one another are something to build on, if none of them waits to be built. -/
theorem Sound.footing {C : NodeId → Prop} (h : s.Sound ext []) (ho : s.Orderly)
    (hidle : ∀ x, (s.cell x).evaluating = false) (hlive : ∀ n, C n → 0 < (s.cell n).owners)
    (hsteady : ∀ n, C n → (s.node n).isPending = false) (hclosed : ∀ n d, C n → s.Uses n d → C d) :
    ∃ rank, Footing s C rank s.cells.size := by
  obtain ⟨rank, hbound, hfalls⟩ := ho.exists_rank
  have hwithin : ∀ n, C n → n < s.cells.size := fun n hn => lt_size_of_owners_pos (hlive n hn)
  have hrank : ∀ n, C n → s.rankWith rank s.cells.size s.cells.size n = rank n := fun n hn =>
    rankWith_old (hwithin n hn) (Nat.ne_of_lt (hwithin n hn))
  refine ⟨s.rankWith rank s.cells.size s.cells.size, ?_⟩
  refine
    { legible := h.legible hlive hsteady fun n d hn hd => ?_
      within := hwithin
      busy := fun x hx => ?_
      old := fun n hn => hrank n hn ▸ hbound n (hwithin n hn)
      new := fun n hn => if_pos hn }
  · rw [hrank n hn, hrank d (hclosed n d hn hd)]
    exact ⟨hclosed n d hn hd, hfalls n d hd⟩
  · rw [hidle] at hx
    cases hx

/-- Work on `t` begins once what it needs has been settled. -/
theorem working_settledFor {told : List NodeId} (h : s.Sound ext told) (ht : s.Anchored ext t)
    (hdirty : (s.cell t).dirty = true) (hidle : (s.cell t).evaluating = false) :
    (s.settledFor t).Working ext told t (s.settledFor t) := by
  obtain ⟨hsound, hgrows, hdirty'⟩ := settle_sound (readWithin_reads (2 * s.cells.size + 1)) h ht hdirty hidle
  exact working_setEvaluating hsound (ht.grows h.accounts hgrows) hdirty'

/-- Settling for `t` leaves it the node that it is, and every other one that does not wait to be built. -/
theorem extends_settledFor {told : List NodeId} (h : s.Sound ext told) (ht : s.Anchored ext t)
    (hdirty : (s.cell t).dirty = true) (hidle : (s.cell t).evaluating = false) :
    (s.settledFor t).records = s.records ∧ s.cells.size ≤ (s.settledFor t).cells.size ∧
      ∀ m, m < s.cells.size → (m ≠ t → (s.node m).isPending = false) → (s.settledFor t).node m = s.node m := by
  have hread : Reads (readWithin (2 * s.cells.size + 1)) := readWithin_reads _
  obtain ⟨-, hgrows, -⟩ := settle_sound hread h ht hdirty hidle
  have hmarked : ∀ m, (s.settledFor t).node m =
      ((settle (readWithin (2 * s.cells.size + 1)) t).run s).2.node m :=
    cell_modifyCell_congr Cell.node (by exact fun _ => rfl)
  refine ⟨hgrows.records, Nat.le_trans hgrows.size (Nat.le_of_eq size_modifyCell.symm), fun m hm hsteady => ?_⟩
  rw [hmarked]
  by_cases hmt : m = t
  · rw [hmt]
    exact node_settle hread h ht hdirty
  · exact hgrows.node m trivial hm (.inl (hsteady hmt))

theorem node_settledFor {told : List NodeId} (h : s.Sound ext told) (ht : s.Anchored ext t)
    (hdirty : (s.cell t).dirty = true) (hidle : (s.cell t).evaluating = false) :
    (s.settledFor t).node t = s.node t :=
  (extends_settledFor h ht hdirty hidle).2.2 t (lt_size_of_dirty hdirty) fun htt => (htt rfl).elim

theorem settledFor_lasts {P : List NodeId → Graph → Prop} {busy told : List NodeId} (hP : Abides P)
    (h : s.Sound ext told) (ht : s.Anchored ext t) (hdirty : (s.cell t).dirty = true) (hs : P busy s) :
    P (t :: busy) (s.settledFor t) :=
  hP.start t (settle_lasts hP (readWithin_reads _) (readWithin_keeps hP _) h ht hdirty hs)

/-- What a node leads to in `g` is below it in `s`, if live nodes other than `t` are what they are in `g`. -/
theorem below_of_apart (ha : s.Accounts ext) (hn : s.Anchored ext n) (hapart : ¬ ReflTransGen g.Uses n t)
    (hnode : ∀ m, 0 < (s.cell m).owners → m ≠ t → g.node m = s.node m)
    (hsteady : ∀ m, ReflTransGen g.Uses n m → 0 < (s.cell m).owners → m ≠ t → (s.node m).isPending = false) :
    s.Below ext t n := by
  refine ⟨hn, fun d hd => ?_⟩
  have hway : ReflTransGen g.Uses n d ∧ 0 < (s.cell d).owners := by
    induction hd with
    | refl => exact ⟨.refl, hn.live ha⟩
    | @tail m d _ hstep ih =>
      refine ⟨ih.1.tail ?_, ha.dependency_live ih.2 hstep⟩
      rw [Uses, dependencies, hnode m ih.2 fun hmt => hapart (hmt ▸ ih.1)]
      exact hstep
  have hdt : d ≠ t := fun hdt => hapart (hdt ▸ hway.1)
  exact ⟨hdt, hsteady d hway.1 hway.2 hdt⟩

/-- When the formula of `t` is built, what is below other nodes is still as it was, and can be read. -/
theorem exists_footing (hs : s.Sound ext []) (ho : s.Orderly) (ht : s.Anchored ext t)
    (hidle : ∀ x, (s.cell x).evaluating = false) (hdirty : (s.cell t).dirty = true) :
    (∃ rank, Footing (s.settledFor t) (s.Below ext t) rank s.cells.size) ∧
      (s.settledFor t).records = s.records ∧ s.cells.size ≤ (s.settledFor t).cells.size ∧
        ∀ n, s.Below ext t n → (s.settledFor t).node n = s.node n := by
  have hsound := (working_settledFor hs ht hdirty (hidle t)).sound
  obtain ⟨hrecords, hsize, hsame⟩ := extends_settledFor hs ht hdirty (hidle t)
  have hbusy := settledFor_lasts endures_busyWith.lasts.abides hs ht hdirty (busyWith_nil.mpr hidle)
  generalize s.settledFor t = base at hsound hrecords hsize hsame hbusy ⊢
  have hlt : t < s.cells.size := lt_size_of_dirty hdirty
  have hwithin : ∀ n, s.Below ext t n → n < s.cells.size := fun n hn =>
    lt_size_of_owners_pos (hn.1.live hs.accounts)
  have hnode : ∀ n, s.Below ext t n → base.node n = s.node n := fun n hn =>
    hsame n (hwithin n hn) fun _ => (hn.2 n .refl).2
  have hlive : ∀ n, s.Below ext t n → 0 < (base.cell n).owners := fun n hn =>
    (hn.1.of_steady hs.accounts hrecords fun m hm hsteady =>
      hsame m (lt_size_of_owners_pos hm) fun _ => hsteady).live hsound.accounts
  obtain ⟨rank, hbound, hfalls⟩ := ho.exists_rank
  have hrank : ∀ n, s.Below ext t n → base.rankWith rank s.cells.size t n = rank n := fun n hn =>
    rankWith_old (Nat.lt_of_lt_of_le (hwithin n hn) hsize) (hn.2 n .refl).1
  refine ⟨⟨base.rankWith rank s.cells.size t, ?_⟩, hrecords, hsize, hnode⟩
  refine
    { legible := hsound.legible hlive (fun n hn => ?_) fun n d hn hd => ?_
      within := fun n hn => Nat.lt_of_lt_of_le (hwithin n hn) hsize
      busy := fun x hx => ?_
      old := fun n hn => hrank n hn ▸ hbound n (hwithin n hn)
      new := fun n hn => if_pos hn }
  · rw [hnode n hn]
    exact (hn.2 n .refl).2
  · rw [Uses, dependencies, hnode n hn] at hd
    have hd' := hn.uses hd
    rw [hrank n hn, hrank d hd']
    exact ⟨hd', hfalls n d hd⟩
  · rw [List.mem_singleton.mp (hbusy x hx), rankWith, if_neg (Nat.not_le_of_lt (Nat.lt_of_lt_of_le hlt hsize)),
      if_pos rfl]
    exact Nat.lt_succ_self _

/-- The formula has been built in `g` for `t`, which it does not lead to, and nothing that it could name waits to
be built. -/
structure TriedOut (g : Graph) (ext : List Hold) (t : NodeId) (scope : RecordId) (text : String)
    (root : NodeId) : Prop where
  sound : g.Sound ext []
  orderly : g.Orderly
  built : ∃ tokens e, tokenize text = .ok tokens ∧ Spells 0 e tokens ∧ g.Built scope e (.value root) ∧
    g.Known scope e (.value root) ∧ 0 < (g.record scope).owners
  live : 0 < (g.cell root).owners
  apart : ¬ ReflTransGen g.Uses root t
  steady (r : RecordId) (name : String) (n d : NodeId) : 0 < (g.record r).owners →
    g.resolve? r name = some (.node n) → ReflTransGen g.Uses n d → (g.node d).isPending = false

/-- It can be built again by a read of `t`, if nothing but `t` has become another node since. -/
theorem TriedOut.buildTree {text : String} (h : g.TriedOut ext t scope text root) (hs : s.Sound ext' [])
    (ho : s.Orderly) (ht : s.Anchored ext' t) (hidle : ∀ x, (s.cell x).evaluating = false)
    (hdirty : (s.cell t).dirty = true) (hrecords : s.records = g.records)
    (hnode : ∀ n, n ≠ t → s.node n = g.node n) :
    ∃ root', ((FormulaGraph.buildTree (readWithin (2 * s.cells.size + 1)) t scope text).run.run
      (s.settledFor t)).1 = .ok root' := by
  obtain ⟨⟨rank, hf⟩, hbase, hsize, hsame⟩ := exists_footing hs ho ht hidle hdirty
  have happly : ∀ {n d}, ¬ ReflTransGen g.Uses n t → g.Uses n d → ¬ ReflTransGen g.Uses d t :=
    fun hn hd hdt => hn (.head hd hdt)
  -- What the formula names leads to the same nodes as before.
  have hbelow : ∀ {r name n}, 0 < (g.record r).owners → g.resolve? r name = some (.node n) →
      ¬ ReflTransGen g.Uses n t → s.Below ext' t n := by
    intro r name n hr hm hn
    have hr' : 0 < (s.record r).owners := by
      rw [record, hrecords]
      exact hr
    refine below_of_apart hs.accounts
      (anchored_of_resolve? hs.accounts hr' ((resolve?_of_records hrecords r name).trans hm)) hn
      (fun m _ hmt => (hnode m hmt).symm) fun m hway _ hmt => ?_
    rw [hnode m hmt]
    exact h.steady r name n m hr hm hway
  have hvalue : ∀ {n v}, s.Below ext' t n → g.Given (fun n => ¬ ReflTransGen g.Uses n t) n v →
      (s.settledFor t).Evaluates n (.ok v) := by
    intro n v hn hgiven
    obtain ⟨hhas, hlive, hapart⟩ := hgiven
    have hbefore := h.sound.evaluates_of_has h.orderly hlive hhas fun _ _ => List.not_mem_nil
    have hafter : s.Evaluates n (.ok v) := hbefore.of_within (fun n d hn hd => happly hn hd)
      (fun m hm => hnode m fun hmt => hm (hmt ▸ .refl)) hapart
    exact hafter.of_within (fun n d hn hd => hn.uses hd) hsame hn
  obtain ⟨tokens, e, htokens, hspells, hbuilt, hknown, hr⟩ := h.built
  have hlt := lt_size_of_dirty hdirty
  have hpos := Nat.zero_lt_of_lt hlt
  have hdeep : Deep (s.settledFor t) (s.Below ext' t) rank s.cells.size (readWithin (2 * s.cells.size + 1)) :=
    fun _ _ => ⟨2 * s.cells.size + 1, by omega, rfl⟩
  have hb := rebuilds_of_footing hf hdeep (hbase.trans hrecords) happly fun hr hm hgiven =>
    ⟨hbelow hr hm hgiven.2.2, hvalue (hbelow hr hm hgiven.2.2) hgiven⟩
  exact buildTree_again hf hb h.sound hbelow (Nat.lt_of_lt_of_le hlt hsize)
    (fun ht => (ht.2 t .refl).1 rfl) hr htokens hspells hbuilt hknown h.live h.apart

end Graph

section

variable {g s : Graph} {ext ext' : List Hold} {told : List NodeId} {t root : NodeId} {scope : RecordId}
  {source : Source} {text : String}

theorem text_of_pending? (h : source.pending? = some text) : source.text = text := by
  cases source <;> cases h <;> rfl

/-- A read of an expression leaves it as building its formula does, and fails if that does. -/
theorem read_of_currentTree (h : g.Sound ext told) (ht : g.Anchored ext t) (hdirty : (g.cell t).dirty = true)
    (hidle : (g.cell t).evaluating = false) (hnode : g.node t = .expression scope source) :
    (g.read t).2.node t =
        ((currentTree (readWithin (2 * g.cells.size + 1)) t scope source).run.run (g.settledFor t)).2.node t ∧
      ∀ e, ((currentTree (readWithin (2 * g.cells.size + 1)) t scope source).run.run (g.settledFor t)).1 = .error e →
        (g.read t).1 = .error e := by
  have hread : Reads (readWithin (2 * g.cells.size + 1)) := readWithin_reads _
  obtain ⟨-, hgrows, -⟩ := settle_sound hread h ht hdirty hidle
  have hidle' := Bool.eq_false_iff.mp ((hgrows.evaluating t trivial (lt_size_of_dirty hdirty)).trans hidle)
  have hworking := working_settledFor h ht hdirty hidle
  have hmarked := (node_settledFor h ht hdirty hidle).trans hnode
  rw [Graph.read, run_readNode, depthLimit, readWithin, run_readWith, if_pos hdirty]
  dsimp only
  rw [if_neg (Bool.eq_false_iff.mp hidle), node_evaluateNode hidle', ← node_compute hread hworking hmarked]
  refine ⟨rfl, fun e he => ?_⟩
  have hresult : ((compute (readWithin (2 * g.cells.size + 1)) t).run.run (g.settledFor t)).1 = .error e := by
    rw [run_compute, hmarked]
    dsimp only
    generalize (currentTree (readWithin (2 * g.cells.size + 1)) t scope source).run.run (g.settledFor t) = r at he ⊢
    obtain ⟨r, g'⟩ := r
    dsimp only at he
    subst he
    rfl
  rw [run_evaluateNode, if_neg hidle']
  exact hresult

/-- An expression keeps its formula when it is read, if the formula can be built then. -/
theorem formula_read (h : g.Sound ext told) (ht : g.Anchored ext t) (hdirty : (g.cell t).dirty = true)
    (hidle : (g.cell t).evaluating = false) (hnode : g.node t = .expression scope source)
    (hbuilds : ∀ text, source.pending? = some text →
      ∃ root, ((buildTree (readWithin (2 * g.cells.size + 1)) t scope text).run.run (g.settledFor t)).1 = .ok root) :
    ((g.read t).2.node t).formula? = some source.text := by
  have hworking := working_settledFor h ht hdirty hidle
  have hmarked := (node_settledFor h ht hdirty hidle).trans hnode
  rw [(read_of_currentTree h ht hdirty hidle hnode).1]
  refine (currentTree_keeps_or_takesBack (readWithin_reads _) hworking hmarked).resolve_right fun hback => ?_
  obtain ⟨scope', text, old, e, hedited, -, he⟩ := hback
  have hsource := hmarked.symm.trans hedited
  cases hsource
  obtain ⟨root, hroot⟩ := hbuilds text rfl
  rw [run_currentTree] at he
  dsimp only at he
  generalize (buildTree (readWithin (2 * g.cells.size + 1)) t scope text).run.run _ = built at he hroot
  obtain ⟨r, g'⟩ := built
  dsimp only at hroot
  subst hroot
  cases he

/-- An expression whose formula has been tried out keeps it when it is read. -/
theorem Graph.TriedOut.formula_read (h : g.TriedOut ext t scope text root) (hs : s.Sound ext' []) (ho : s.Orderly)
    (ht : s.Anchored ext' t) (hidle : ∀ x, (s.cell x).evaluating = false) (hrecords : s.records = g.records)
    (hother : ∀ n, n ≠ t → s.node n = g.node n) (hnode : s.node t = .expression scope source)
    (htext : source.text = text) : ((s.read t).2.node t).formula? = some text := by
  by_cases hdirty : (s.cell t).dirty = true
  · rw [FormulaGraph.formula_read hs ht hdirty (hidle t) hnode fun text' hpending => ?_, htext]
    obtain rfl : text' = text := (text_of_pending? hpending).symm.trans htext
    exact h.buildTree hs ho ht hidle hdirty hrecords hother
  · have hclean := Bool.eq_false_iff.mpr hdirty
    obtain ⟨v, hv⟩ := hs.coherent.cached t (ht.live hs.accounts) hclean
    rw [Graph.read, run_readNode_of_has ⟨hclean, hv⟩, hnode]
    exact congrArg some htext

end

end FormulaGraph
