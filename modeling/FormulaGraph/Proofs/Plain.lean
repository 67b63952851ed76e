import FormulaGraph.Proofs.Acyclic
import FormulaGraph.Proofs.Unfolding

/-! Where no formula waits to be built, a read comes to what working everything out again would, whatever has been
kept and in whatever order it settles what it needs. -/

namespace FormulaGraph

open FormulaGraph.Graph Relation

namespace Graph

variable {g g' : Graph} {n m d : NodeId} {nodes : List NodeId}

/-- Nodes that read only one another, and what they have kept is right. None of them waits to be built, and
among those that are still to be worked out the rank falls along what they read. -/
structure Legible (g : Graph) (R : NodeId → Prop) (rank : NodeId → Nat) : Prop where
  steady (n : NodeId) : R n → (g.node n).isPending = false
  within (n d : NodeId) : R n → g.Uses n d → R d
  falls (n d : NodeId) : R n → g.Uses n d → (g.cell n).dirty = true → (g.cell d).dirty = true → rank d < rank n
  kept (n : NodeId) : R n → (g.cell n).dirty = false → ∃ v, (g.cell n).cache = some v ∧ g.Evaluates n (.ok v)

/-- Whatever is being worked out is above this rank. -/
def ClearBelow (g : Graph) (rank : NodeId → Nat) (k : Nat) : Prop :=
  ∀ x, (g.cell x).evaluating = true → k < rank x

/-- If it has to be worked out, it is low enough, and nothing at its rank or below is being worked out. -/
def Ready (g : Graph) (rank : NodeId → Nat) (k : Nat) (n : NodeId) : Prop :=
  0 < k ∧ ((g.cell n).dirty = true → rank n + 1 < k ∧ g.ClearBelow rank (rank n))

/-- Nothing has changed but that more nodes have kept their values. -/
structure Tidies (g g' : Graph) : Prop where
  alike : g.Alike g'
  busy (m : NodeId) : (g.cell m).evaluating = true → (g'.cell m).dirty = (g.cell m).dirty
  clean (m : NodeId) : (g.cell m).dirty = false →
    (g'.cell m).dirty = false ∧ (g'.cell m).cache = (g.cell m).cache

variable {R : NodeId → Prop} {rank : NodeId → Nat} {k : Nat}

theorem Tidies.refl (g : Graph) : g.Tidies g := ⟨.refl g, fun _ _ => rfl, fun _ h => ⟨h, rfl⟩⟩

theorem Tidies.trans {g'' : Graph} (h : g.Tidies g') (h' : g'.Tidies g'') : g.Tidies g'' := by
  refine ⟨h.alike.trans h'.alike,
    fun m hm => (h'.busy m ((h.alike.evaluating m).trans hm)).trans (h.busy m hm), fun m hm => ?_⟩
  obtain ⟨hclean, hcache⟩ := h.clean m hm
  obtain ⟨hclean', hcache'⟩ := h'.clean m hclean
  exact ⟨hclean', hcache'.trans hcache⟩

theorem Tidies.of_core (hrecords : g'.records = g.records) (hsize : g'.cells.size = g.cells.size)
    (hcore : ∀ m, (g'.cell m).core = (g.cell m).core) : g.Tidies g' where
  alike := .of_core hrecords hsize hcore
  busy m _ := congrArg (·.2.2.1) (hcore m)
  clean m hm := ⟨(congrArg (·.2.2.1) (hcore m)).trans hm, congrArg (·.2.1) (hcore m)⟩

theorem Tidies.dirty (h : g.Tidies g') (hm : (g'.cell m).dirty = true) : (g.cell m).dirty = true := by
  by_contra hclean
  rw [(h.clean m (Bool.eq_false_iff.mpr hclean)).1] at hm
  cases hm

theorem ClearBelow.alike (h : g.ClearBelow rank k) (ha : g.Alike g') : g'.ClearBelow rank k :=
  fun x hx => h x (by rwa [ha.evaluating] at hx)

theorem Ready.tidies (h : g.Ready rank k n) (ht : g.Tidies g') : g'.Ready rank k n := by
  refine ⟨h.1, fun hdirty => ?_⟩
  obtain ⟨hlt, hclear⟩ := h.2 (ht.dirty hdirty)
  exact ⟨hlt, hclear.alike ht.alike⟩

/-- Working a node out puts a mark on it that is gone in the end. -/
theorem Tidies.unmark {f : Cell → Cell} (h : (g.modifyCell n fun c => { c with evaluating := true }).Tidies g')
    (hnode : ∀ c, (f c).node = c.node) (hf : ∀ c, (f c).evaluating = false)
    (hidle : ¬ (g.cell n).evaluating = true) (hdirty : (g.cell n).dirty = true) : g.Tidies (g'.modifyCell n f) := by
  have hsize : g'.cells.size = g.cells.size := h.alike.size.trans size_modifyCell
  have hother : ∀ m, m ≠ n → (g'.modifyCell n f).cell m = g'.cell m ∧
      (g.modifyCell n fun c => { c with evaluating := true }).cell m = g.cell m :=
    fun m hm => ⟨cell_modifyCell_of_ne hm, cell_modifyCell_of_ne hm⟩
  refine ⟨⟨h.alike.records, size_modifyCell.trans hsize, fun m => ?_, fun m => ?_⟩, fun m he => ?_, fun m hc => ?_⟩
  · exact (cell_modifyCell_congr Cell.node hnode m).trans
      ((h.alike.node m).trans (cell_modifyCell_congr Cell.node (by exact fun _ => rfl) m))
  · by_cases hmn : m = n
    · rw [hmn, cell_modifyCell_self (hsize ▸ lt_size_of_dirty hdirty), hf]
      exact (Bool.eq_false_iff.mpr hidle).symm
    · have := h.alike.evaluating m
      rwa [(hother m hmn).2, ← (hother m hmn).1] at this
  · have hmn : m ≠ n := fun hmn => hidle (hmn ▸ he)
    have := h.busy m
    rw [(hother m hmn).2, ← (hother m hmn).1] at this
    exact this he
  · have hmn : m ≠ n := by
      rintro rfl
      rw [hdirty] at hc
      cases hc
    have := h.clean m
    rw [(hother m hmn).2, ← (hother m hmn).1] at this
    exact this hc

/-- Live nodes that read only one another are legible if none of them waits to be built or is still to be told. -/
theorem Sound.legible_of_untold {ext : List Hold} {told : List NodeId} (h : g.Sound ext told)
    (hlive : ∀ n, R n → 0 < (g.cell n).owners) (hsteady : ∀ n, R n → (g.node n).isPending = false)
    (hfalls : ∀ n d, R n → g.Uses n d → R d ∧ rank d < rank n) (huntold : ∀ n, R n → n ∉ told) :
    g.Legible R rank where
  steady := hsteady
  within n d hn hd := (hfalls n d hn hd).1
  falls n d hn hd _ _ := (hfalls n d hn hd).2
  kept n hn hclean := by
    generalize hk : rank n = k
    induction k using Nat.strongRecOn generalizing n with
    | ind k ih =>
      obtain ⟨hdeps, v, hv, hgiven⟩ := h.coherent.fresh n (hlive n hn) hclean (huntold n hn)
      refine ⟨v, hv, evaluates_of_given? hgiven fun d hd w hw => ?_⟩
      obtain ⟨hd', hlt⟩ := hfalls n d hn hd
      obtain ⟨w', hw', hevaluates⟩ := ih (rank d) (hk ▸ hlt) d hd' (hdeps d hd) rfl
      rw [hw] at hw'
      cases hw'
      exact hevaluates

theorem Sound.legible {ext : List Hold} (h : g.Sound ext []) (hlive : ∀ n, R n → 0 < (g.cell n).owners)
    (hsteady : ∀ n, R n → (g.node n).isPending = false)
    (hfalls : ∀ n d, R n → g.Uses n d → R d ∧ rank d < rank n) : g.Legible R rank :=
  h.legible_of_untold hlive hsteady hfalls fun _ _ => List.not_mem_nil

/-- What a clean node has kept is right, unless it leads to one that is still to be told. -/
theorem Sound.evaluates_of_has {ext : List Hold} {told : List NodeId} {v : Value} (h : g.Sound ext told)
    (ho : g.Orderly) (hlive : 0 < (g.cell n).owners) (hn : g.Has n v)
    (huntold : ∀ d, ReflTransGen g.Uses n d → d ∉ told) : g.Evaluates n (.ok v) := by
  obtain ⟨rank, -, hfalls⟩ := ho.exists_rank
  have hlegible : g.Legible (fun m => ReflTransGen g.Uses n m ∧ 0 < (g.cell m).owners ∧ (g.cell m).dirty = false)
      rank := by
    refine h.legible_of_untold (fun m hm => hm.2.1) (fun m hm => ?_) (fun m d hm hd => ?_) fun m hm => huntold m hm.1
    · obtain ⟨v, -, hgiven⟩ := (h.coherent.fresh m hm.2.1 hm.2.2 (huntold m hm.1)).value
      exact not_pending_of_given? hgiven
    · have hclean := (h.coherent.fresh m hm.2.1 hm.2.2 (huntold m hm.1)).clean d hd
      exact ⟨⟨hm.1.tail hd, h.accounts.dependency_live hm.2.1 hd, hclean⟩, hfalls m d hd⟩
  obtain ⟨w, hw, hevaluates⟩ := hlegible.kept n ⟨.refl, hlive, hn.1⟩ hn.1
  rw [hn.2] at hw
  cases hw
  exact hevaluates

theorem Legible.of_node (h : g.Legible R rank) (hnode : ∀ m, g'.node m = g.node m)
    (hdirty : ∀ m, (g'.cell m).dirty = true → (g.cell m).dirty = true)
    (hkept : ∀ n, R n → (g'.cell n).dirty = false → ((g.cell n).dirty = false ∧ (g'.cell n).cache = (g.cell n).cache) ∨
      ∃ v, (g'.cell n).cache = some v ∧ g.Evaluates n (.ok v)) : g'.Legible R rank where
  steady n hn := by
    rw [hnode]
    exact h.steady n hn
  within n d hn hd := by
    rw [Uses, dependencies, hnode] at hd
    exact h.within n d hn hd
  falls n d hn hd hdirtyn hdirtyd := by
    rw [Uses, dependencies, hnode] at hd
    exact h.falls n d hn hd (hdirty n hdirtyn) (hdirty d hdirtyd)
  kept n hn hclean := by
    rcases hkept n hn hclean with ⟨hclean', hcache⟩ | ⟨v, hv, hevaluates⟩
    · obtain ⟨v, hv, hevaluates⟩ := h.kept n hn hclean'
      exact ⟨v, hcache.trans hv, hevaluates.of_node hnode⟩
    · exact ⟨v, hv, hevaluates.of_node hnode⟩

theorem Legible.of_core (h : g.Legible R rank) (hcore : ∀ m, (g'.cell m).core = (g.cell m).core) :
    g'.Legible R rank := by
  have hdirty : ∀ m, (g'.cell m).dirty = (g.cell m).dirty := fun m => congrArg (·.2.2.1) (hcore m)
  exact h.of_node (fun m => congrArg (·.1) (hcore m)) (fun m hm => hdirty m ▸ hm) fun m _ hm =>
    .inl ⟨hdirty m ▸ hm, congrArg (·.2.1) (hcore m)⟩

/-- What counts neither for a value nor for whether it has been kept may change. -/
theorem Legible.modifyCell {f : Cell → Cell} (h : g.Legible R rank) (hnode : ∀ c, (f c).node = c.node)
    (hdirty : ∀ c, (f c).dirty = c.dirty) (hcache : ∀ c, (f c).cache = c.cache) :
    (g.modifyCell n f).Legible R rank := by
  have hdirty' := cell_modifyCell_congr (g := g) (n := n) Cell.dirty hdirty
  refine h.of_node (cell_modifyCell_congr Cell.node hnode) (fun m hm => hdirty' m ▸ hm) fun m _ hclean =>
    .inl ⟨hdirty' m ▸ hclean, cell_modifyCell_congr Cell.cache hcache m⟩

theorem Legible.setEvaluating (h : g.Legible R rank) (evaluating : Bool) :
    (g.modifyCell n fun c => { c with evaluating }).Legible R rank :=
  h.modifyCell (by exact fun _ => rfl) (by exact fun _ => rfl) (by exact fun _ => rfl)

theorem inputs_of_steady (h : (g.node n).isPending = false) : g.inputs n = g.dependencies n := by
  rw [inputs]
  cases hn : g.node n with
  | constant | input | calculation => rfl
  | expression scope source =>
    rw [hn] at h
    cases source with
    | built tree => rfl
    | unbuilt | edited => cases h

/-- What is settled for a legible node is legible and below it. -/
theorem Legible.settleOrder (h : g.Legible R rank) (hn : R n) (hdirty : (g.cell n).dirty = true) :
    ∀ m ∈ g.settleOrder n, R m ∧ rank m < rank n := by
  have hbelow : ∀ m ∈ g.settleOrder n,
      (R m ∧ ((g.cell m).dirty = true → rank m < rank n)) ∧ g.needsWork m = true := by
    refine mem_settleOrder (fun m hm hneeds d hd => ?_) fun d hd => ?_
    · have hdirtym := Bool.and_elim_left hneeds
      rw [inputs_of_steady (h.steady m hm.1)] at hd
      exact ⟨h.within m d hm.1 hd, fun hdirtyd =>
        Nat.lt_trans (h.falls m d hm.1 hd hdirtym hdirtyd) (hm.2 hdirtym)⟩
    · rw [inputs_of_steady (h.steady n hn)] at hd
      exact ⟨h.within n d hn hd, h.falls n d hn hd hdirty⟩
  intro m hm
  obtain ⟨⟨hm, hlt⟩, hneeds⟩ := hbelow m hm
  exact ⟨hm, hlt (Bool.and_elim_left hneeds)⟩

end Graph

/-- A result that is right, with nothing changed but what is kept. -/
structure Comes {α : Type} (g : Graph) (R : NodeId → Prop) (rank : NodeId → Nat) (right : Checked α → Prop)
    (result : Checked α × Graph) : Prop where
  right : right result.1
  tidies : g.Tidies result.2
  legible : result.2.Legible R rank

/-- Reading what is below `k` comes to what it should, and a value is kept. -/
def ReadsPlainly (R : NodeId → Prop) (rank : NodeId → Nat) (read : Reader) (k : Nat) : Prop :=
  ∀ {g : Graph} {n : NodeId}, g.Legible R rank → R n → g.Ready rank k n →
    Comes g R rank (g.Evaluates n) ((read n).run.run g) ∧
      ∀ v, ((read n).run.run g).1 = .ok v → (((read n).run.run g).2.cell n).dirty = false

section

variable {g : Graph} {n : NodeId} {R : NodeId → Prop} {rank : NodeId → Nat} {read : Reader} {k : Nat}

theorem mapM_plain (hread : ReadsPlainly R rank read k) (nodes : List NodeId) (h : g.Legible R rank)
    (hnodes : ∀ m ∈ nodes, R m ∧ g.Ready rank k m) :
    Comes g R rank (g.EvaluatesAll nodes) ((nodes.mapM read).run.run g) := by
  induction nodes generalizing g with
  | nil => exact ⟨.nil, .refl g, h⟩
  | cons m nodes ih =>
    obtain ⟨hm, hready⟩ := hnodes m List.mem_cons_self
    obtain ⟨hfirst, -⟩ := hread h hm hready
    rw [List.mapM_cons, run_bind_except]
    generalize (read m).run.run g = first at hfirst ⊢
    obtain ⟨e | v, g₁⟩ := first
    · exact ⟨.failed hfirst.right, hfirst.tidies, hfirst.legible⟩
    · have hrest := ih hfirst.legible fun d hd => by
        obtain ⟨hd, hready⟩ := hnodes d (List.mem_cons_of_mem _ hd)
        exact ⟨hd, hready.tidies hfirst.tidies⟩
      dsimp only
      rw [run_bind_except]
      generalize (nodes.mapM read).run.run g₁ = rest at hrest ⊢
      obtain ⟨hright, htidies, hlegible⟩ := hrest
      have hright' := hright.of_node fun m => (hfirst.tidies.alike.node m).symm
      have hall := EvaluatesAll.cons hfirst.right hright'
      obtain ⟨e | values, g₂⟩ := rest
      · exact ⟨hall, hfirst.tidies.trans htidies, hlegible⟩
      · exact ⟨hall, hfirst.tidies.trans htidies, hlegible⟩

theorem compute_plain (hread : ReadsPlainly R rank read k) (h : g.Legible R rank) (hn : R n)
    (hdirty : (g.cell n).dirty = true) (hlt : rank n < k)
    (hclear : ∀ x, (g.cell x).evaluating = true → rank n ≤ rank x) :
    Comes g R rank (g.Evaluates n) ((compute read n).run.run g) := by
  have hbelow : ∀ d, g.Uses n d → R d ∧ g.Ready rank k d := fun d hd => by
    refine ⟨h.within n d hn hd, Nat.zero_lt_of_lt hlt, fun hdirtyd => ?_⟩
    have hfalls := h.falls n d hn hd hdirty hdirtyd
    exact ⟨Nat.lt_of_le_of_lt hfalls hlt, fun x hx => Nat.lt_of_lt_of_le hfalls (hclear x hx)⟩
  rw [run_compute]
  cases hnode : g.node n with
  | constant value => exact ⟨.constant hnode, .refl g, h⟩
  | input value => exact ⟨.input hnode, .refl g, h⟩
  | calculation operation operands offset tickets =>
    have hmapM := mapM_plain hread operands h fun m hm =>
      hbelow m (by rw [Graph.Uses, dependencies, hnode]; exact hm)
    dsimp only
    generalize (operands.mapM read).run.run g = r at hmapM ⊢
    obtain ⟨e | values, g'⟩ := r
    · exact ⟨.calculation hnode hmapM.right, hmapM.tidies, hmapM.legible⟩
    · exact ⟨.calculation hnode hmapM.right, hmapM.tidies, hmapM.legible⟩
  | expression scope source =>
    have hsteady := h.steady n hn
    rw [hnode] at hsteady
    cases source with
    | unbuilt | edited => cases hsteady
    | built tree =>
      obtain ⟨hroot, hready⟩ := hbelow tree.root (by
        rw [Graph.Uses, dependencies, hnode]
        exact List.mem_singleton_self _)
      obtain ⟨hread, -⟩ := hread h hroot hready
      dsimp only
      rw [run_currentTree]
      exact ⟨.expression hnode hread.right, hread.tidies, hread.legible⟩

theorem evaluateNode_plain (hread : ReadsPlainly R rank read k) (h : g.Legible R rank) (hn : R n)
    (hdirty : (g.cell n).dirty = true) (hlt : rank n < k) (hclear : g.ClearBelow rank (rank n)) :
    Comes g R rank (g.Evaluates n) ((evaluateNode read n).run.run g) ∧
      ∀ v, ((evaluateNode read n).run.run g).1 = .ok v →
        (((evaluateNode read n).run.run g).2.cell n).dirty = false := by
  have hidle : ¬ (g.cell n).evaluating = true := fun he => Nat.lt_irrefl _ (hclear n he)
  have hstart : ∀ m, (g.modifyCell n fun c => { c with evaluating := true }).node m = g.node m :=
    cell_modifyCell_congr Cell.node (by exact fun _ => rfl)
  have hdirty' : ((g.modifyCell n fun c => { c with evaluating := true }).cell n).dirty = true :=
    (cell_modifyCell_congr Cell.dirty (by exact fun _ => rfl) n).trans hdirty
  have hcomputed := compute_plain hread (h.setEvaluating (n := n) true) hn hdirty' hlt fun x hx => by
    by_cases hxn : x = n
    · rw [hxn]
    · rw [cell_modifyCell_of_ne hxn] at hx
      exact Nat.le_of_lt (hclear x hx)
  rw [run_evaluateNode, if_neg hidle]
  dsimp only
  generalize (compute read n).run.run (g.modifyCell n fun c => { c with evaluating := true }) = computed
    at hcomputed ⊢
  obtain ⟨result, g'⟩ := computed
  obtain ⟨hright, htidies, hlegible⟩ := hcomputed
  have hright' : g.Evaluates n result := hright.of_node fun m => (hstart m).symm
  have hsize : n < g'.cells.size := by
    rw [htidies.alike.size, size_modifyCell]
    exact lt_size_of_dirty hdirty
  cases result with
  | error e =>
    rw [run_keepResult_error]
    exact ⟨⟨hright', htidies.unmark (by exact fun _ => rfl) (by exact fun _ => rfl) hidle hdirty,
      hlegible.modifyCell (by exact fun _ => rfl) (by exact fun _ => rfl) (by exact fun _ => rfl)⟩,
      fun _ he => by cases he⟩
  | ok v =>
    rw [run_keepResult_ok]
    refine ⟨⟨hright', htidies.unmark (by exact fun _ => rfl) (by exact fun _ => rfl) hidle hdirty, ?_⟩,
      fun _ _ => by rw [cell_modifyCell_self hsize]⟩
    refine hlegible.of_node (cell_modifyCell_congr Cell.node (by exact fun _ => rfl)) (fun m hm => ?_)
      fun m _ hm => ?_
    · by_cases hmn : m = n
      · rw [hmn, cell_modifyCell_self hsize] at hm
        cases hm
      · rwa [cell_modifyCell_of_ne hmn] at hm
    · by_cases hmn : m = n
      · right
        rw [hmn, cell_modifyCell_self hsize]
        exact ⟨v, rfl, hright.of_node htidies.alike.node⟩
      · left
        rw [cell_modifyCell_of_ne hmn] at hm ⊢
        exact ⟨hm, rfl⟩

theorem settleAll_plain (hread : ReadsPlainly R rank read k) {nodes : List NodeId} (h : g.Legible R rank)
    (hnodes : ∀ m ∈ nodes, R m ∧ rank m < k ∧ g.ClearBelow rank (rank m)) :
    g.Tidies ((settleAll read nodes).run g).2 ∧ ((settleAll read nodes).run g).2.Legible R rank := by
  induction nodes generalizing g with
  | nil => exact ⟨.refl g, h⟩
  | cons n nodes ih =>
    rw [run_settleAll_cons]
    by_cases hdirty : (g.cell n).dirty = true
    · rw [if_pos hdirty]
      obtain ⟨hn, hlt, hclear⟩ := hnodes n List.mem_cons_self
      obtain ⟨hfirst, -⟩ := evaluateNode_plain hread h hn hdirty hlt hclear
      generalize (evaluateNode read n).run.run g = r at hfirst ⊢
      obtain ⟨e | v, g'⟩ := r
      · exact ⟨hfirst.tidies, hfirst.legible⟩
      · obtain ⟨htidies, hlegible⟩ := ih hfirst.legible fun d hd => by
          obtain ⟨hd, hlt, hclear⟩ := hnodes d (List.mem_cons_of_mem _ hd)
          exact ⟨hd, hlt, hclear.alike hfirst.tidies.alike⟩
        exact ⟨hfirst.tidies.trans htidies, hlegible⟩
    · rw [if_neg hdirty]
      exact ih h fun d hd => hnodes d (List.mem_cons_of_mem _ hd)

/-- Settling keeps what it works out, and changes nothing else. The node itself is left for later. -/
theorem settle_plain (hread : ReadsPlainly R rank read k) (h : g.Legible R rank) (hn : R n)
    (hdirty : (g.cell n).dirty = true) (hlt : rank n < k) (hclear : g.ClearBelow rank (rank n)) :
    g.Tidies ((settle read n).run g).2 ∧ ((settle read n).run g).2.Legible R rank ∧
      (((settle read n).run g).2.cell n).dirty = true := by
  have hidle : ¬ (g.cell n).evaluating = true := fun he => Nat.lt_irrefl _ (hclear n he)
  have hstart := h.setEvaluating (n := n) true
  have hdirty' : ((g.modifyCell n fun c => { c with evaluating := true }).cell n).dirty = true :=
    (cell_modifyCell_congr Cell.dirty (by exact fun _ => rfl) n).trans hdirty
  have hbusy : ((g.modifyCell n fun c => { c with evaluating := true }).cell n).evaluating = true := by
    rw [cell_modifyCell_self (lt_size_of_dirty hdirty)]
  have hall := settleAll_plain hread hstart fun m hm => by
    obtain ⟨hm, hbelow⟩ := hstart.settleOrder hn hdirty' m hm
    refine ⟨hm, Nat.lt_trans hbelow hlt, fun x hx => ?_⟩
    by_cases hxn : x = n
    · exact hxn ▸ hbelow
    · rw [cell_modifyCell_of_ne hxn] at hx
      exact Nat.lt_trans hbelow (hclear x hx)
  rw [run_settle]
  dsimp only
  generalize (settleAll read (Graph.settleOrder _ n)).run _ = r at hall ⊢
  obtain ⟨htidies, hlegible⟩ := hall
  refine ⟨htidies.unmark (by exact fun _ => rfl) (by exact fun _ => rfl) hidle hdirty,
    hlegible.setEvaluating false, ?_⟩
  rw [cell_modifyCell_congr Cell.dirty (by exact fun _ => rfl), htidies.busy n hbusy]
  exact hdirty'

theorem readWith_plain (hread : ReadsPlainly R rank read k) : ReadsPlainly R rank (readWith read) (k + 1) := by
  intro g n h hn hready
  rw [run_readWith]
  by_cases hdirty : (g.cell n).dirty = true
  · obtain ⟨hlt, hclear⟩ := hready.2 hdirty
    have hlt' := Nat.lt_of_succ_lt_succ hlt
    have hidle : ¬ (g.cell n).evaluating = true := fun he => Nat.lt_irrefl _ (hclear n he)
    obtain ⟨htidies, hlegible, hdirty'⟩ := settle_plain hread h hn hdirty hlt' hclear
    obtain ⟨hevaluated, hclean⟩ :=
      evaluateNode_plain hread hlegible hn hdirty' hlt' (hclear.alike htidies.alike)
    rw [if_pos hdirty]
    dsimp only
    rw [if_neg hidle]
    exact ⟨⟨hevaluated.right.of_node fun m => (htidies.alike.node m).symm, htidies.trans hevaluated.tidies,
      hevaluated.legible⟩, hclean⟩
  · have hclean := Bool.eq_false_iff.mpr hdirty
    obtain ⟨v, hv, hevaluates⟩ := h.kept n hn hclean
    rw [if_neg hdirty, hv]
    exact ⟨⟨hevaluates, .refl g, h⟩, fun _ _ => hclean⟩

/-- A read comes to what working everything out again would, by induction on how deep it may go. -/
theorem readWithin_plain (limit : Nat) : ReadsPlainly R rank (readWithin limit) limit := by
  induction limit with
  | zero => exact fun _ _ hready => (Nat.lt_irrefl 0 hready.1).elim
  | succ limit ih => exact readWith_plain ih

/-- Where nothing waits to be built or is being worked out, a node is read to have what it comes to. -/
theorem evaluates_read {ext : List Hold} (h : g.Sound ext []) (ho : g.Orderly)
    (hidle : ∀ x, (g.cell x).evaluating = false)
    (hsteady : ∀ m, 0 < (g.cell m).owners → (g.node m).isPending = false) (hn : 0 < (g.cell n).owners) :
    g.Evaluates n (g.read n).1 := by
  obtain ⟨rank, hbound, hfalls⟩ := ho.exists_rank
  have hlegible : g.Legible (fun m => 0 < (g.cell m).owners) rank :=
    h.legible (fun _ hm => hm) hsteady fun m d hm hd => ⟨h.accounts.dependency_live hm hd, hfalls m d hd⟩
  have hclear : g.ClearBelow rank (rank n) := fun x hx => by
    rw [hidle x] at hx
    cases hx
  have hlimit : rank n + 1 < g.depthLimit := by
    have := hbound n (lt_size_of_owners_pos hn)
    rw [Graph.depthLimit]
    omega
  obtain ⟨hread, -⟩ := readWithin_plain g.depthLimit hlegible hn
    ⟨Nat.zero_lt_of_lt hlimit, fun _ => ⟨hlimit, hclear⟩⟩
  rw [Graph.read, run_readNode]
  exact hread.right

end

namespace Workspace

variable {w : Workspace} {n : NodeId}

theorem steady_of_all {g : Graph} (h : g.cells.all (fun c => c.owners == 0 || !c.node.isPending) = true)
    (m : NodeId) (hm : g.isLive m = true) : (g.node m).isPending = false := by
  have hlt := Graph.lt_size_of_owners_pos (of_decide_eq_true hm)
  have hc := Array.all_eq_true.mp h m hlt
  have hcell : g.cell m = g.cells[m] := by simp [Graph.cell, hlt]
  rw [Graph.isLive, decide_eq_true_eq, hcell] at hm
  rw [Graph.node, hcell]
  simpa [Nat.ne_of_gt hm] using hc

/-- What "c" reads twice cannot be worked out any more, though its formula could be built. -/
def failingSteps : List Step :=
  [.record "r" none, .input "r" "a" "a" (.bool true), .expression "r" "b" "b" "!a",
    .expression "r" "c" "c" "b && b", .read "c", .set "a" (.text "x")]

end Workspace

end FormulaGraph
