import FormulaGraph.Proofs.Plain

/-! How often a read works something out. Where everything below comes to a value, each node that has to be
worked out is so once, however many others read it, and is clean from then on. -/

namespace FormulaGraph

open FormulaGraph.Graph

namespace Graph

variable {g g' g'' : Graph} {n m d : NodeId} {R : NodeId → Prop} {rank : NodeId → Nat}

/-- A node that comes clean has been worked out once more, and no other has. Only these come clean. -/
structure Exactly (R : NodeId → Prop) (g g' : Graph) : Prop where
  once (m : NodeId) :
    (g'.cell m).evaluations + (g'.cell m).dirty.toNat = (g.cell m).evaluations + (g.cell m).dirty.toNat
  only (m : NodeId) : ¬ R m → (g'.cell m).dirty = (g.cell m).dirty

theorem Exactly.refl (g : Graph) : Exactly R g g := ⟨fun _ => rfl, fun _ _ => rfl⟩

theorem Exactly.trans (h : Exactly R g g') (h' : Exactly R g' g'') : Exactly R g g'' :=
  ⟨fun m => (h'.once m).trans (h.once m), fun m hm => (h'.only m hm).trans (h.only m hm)⟩

theorem exactly_setEvaluating (evaluating : Bool) :
    Exactly R g (g.modifyCell n fun c => { c with evaluating }) := by
  have hdirty := cell_modifyCell_congr (g := g) (n := n) (f := fun c => { c with evaluating }) Cell.dirty
    (by exact fun _ => rfl)
  refine ⟨fun m => ?_, fun m _ => hdirty m⟩
  rw [hdirty, cell_modifyCell_congr Cell.evaluations (by exact fun _ => rfl)]

theorem exactly_keepResult (v : Value) (hn : R n) (hdirty : (g.cell n).dirty = true) :
    Exactly R g ((keepResult n (.ok v)).run g).2 := by
  have hlt := lt_size_of_dirty hdirty
  rw [run_keepResult_ok]
  refine ⟨fun m => ?_, fun m hm => ?_⟩
  · by_cases hmn : m = n
    · rw [hmn, cell_modifyCell_self hlt, hdirty]
      rfl
    · rw [cell_modifyCell_of_ne hmn]
  · have hmn : m ≠ n := by
      rintro rfl
      exact hm hn
    rw [cell_modifyCell_of_ne hmn]

/-- Clean nodes read clean nodes. -/
def Closed (R : NodeId → Prop) (g : Graph) : Prop :=
  ∀ n d, R n → g.Uses n d → (g.cell n).dirty = false → (g.cell d).dirty = false

theorem closed_setEvaluating (h : Closed R g) (evaluating : Bool) :
    Closed R (g.modifyCell n fun c => { c with evaluating }) := by
  intro m d hm hd
  have huses : g.Uses m d := by
    rwa [Uses, dependencies, node, cell_modifyCell_congr Cell.node (by exact fun _ => rfl)] at hd
  rw [cell_modifyCell_congr Cell.dirty (by exact fun _ => rfl),
    cell_modifyCell_congr Cell.dirty (by exact fun _ => rfl)]
  exact h m d hm huses

theorem closed_keepResult (h : Closed R g) (v : Value) (hdeps : ∀ d, g.Uses n d → (g.cell d).dirty = false) :
    Closed R ((keepResult n (.ok v)).run g).2 := by
  rw [run_keepResult_ok]
  intro m d hm hd hclean
  have huses : g.Uses m d := by
    rwa [Uses, dependencies, node, cell_modifyCell_congr Cell.node (by exact fun _ => rfl)] at hd
  have hd : (g.cell d).dirty = false := by
    by_cases hmn : m = n
    · exact hdeps d (hmn ▸ huses)
    · rw [cell_modifyCell_of_ne hmn] at hclean
      exact h m d hm huses hclean
  rw [cell_modifyCell]
  split
  · rfl
  · exact hd

theorem Closed.clean (h : Closed R g) (hwithin : ∀ n d, R n → g.Uses n d → R d) (hn : R n)
    (hclean : (g.cell n).dirty = false) (hm : Relation.ReflTransGen g.Uses n m) : (g.cell m).dirty = false := by
  refine (Relation.ReflTransGen.rec (motive := fun m _ => R m ∧ (g.cell m).dirty = false) ⟨hn, hclean⟩
    (fun _ hd ih => ?_) hm).2
  exact ⟨hwithin _ _ ih.1 hd, h _ _ ih.1 hd ih.2⟩

/-- Nodes that come to values when everything is worked out again. -/
def Valued (R : NodeId → Prop) (g : Graph) : Prop := ∀ n, R n → ∃ v, g.Evaluates n (.ok v)

theorem Valued.of_node (h : Valued R g) (hnode : ∀ m, g'.node m = g.node m) : Valued R g' := fun n hn => by
  obtain ⟨v, hv⟩ := h n hn
  exact ⟨v, hv.of_node hnode⟩

theorem EvaluatesAll.valued {nodes : List NodeId} {r : Checked (List Value)} (h : g.EvaluatesAll nodes r)
    {values : List Value} (hr : r = .ok values) (hd : d ∈ nodes) : ∃ v, g.Evaluates d (.ok v) := by
  induction nodes generalizing r values with
  | nil => cases hd
  | cons m nodes ih =>
    cases h with
    | failed hm => cases hr
    | @cons _ _ v rest hm hs =>
      cases hd with
      | head => exact ⟨v, hm⟩
      | tail _ hd =>
        cases rest with
        | ok rest => exact ih hs rfl hd
        | error e => cases hr

theorem Evaluates.steady {r : Checked Value} (h : g.Evaluates n r) : (g.node n).isPending = false := by
  cases h with
  | constant hn | input hn | calculation hn | expression hn =>
    rw [hn]
    rfl

/-- What a node with a value reads has a value. -/
theorem Evaluates.valued_of_uses {v : Value} (h : g.Evaluates n (.ok v)) (hd : g.Uses n d) :
    ∃ v, g.Evaluates d (.ok v) := by
  rw [Uses, dependencies] at hd
  cases hn : g.node n with
  | constant | input =>
    rw [hn] at hd
    cases hd
  | calculation operation operands offset tickets =>
    rw [hn] at hd
    obtain ⟨rs | values, hs, hr⟩ := h.of_calculation hn
    · cases hr
    · exact hs.valued rfl hd
  | expression scope source =>
    cases source with
    | unbuilt | edited =>
      have hsteady := h.steady
      rw [hn] at hsteady
      cases hsteady
    | built tree =>
      obtain ⟨root, hroot, hr⟩ := h.of_expression hn
      rw [hn] at hd
      rw [List.mem_singleton.mp hd]
      obtain ⟨v', rfl⟩ : ∃ v', root = .ok v' := ⟨v, ok_of_mapError hr.symm⟩
      exact ⟨v', hroot⟩

theorem Evaluates.valued {v : Value} (h : g.Evaluates n (.ok v)) :
    Valued (fun m => Relation.ReflTransGen g.Uses n m) g := by
  intro m hm
  induction hm with
  | refl => exact ⟨v, h⟩
  | tail _ hd ih =>
    obtain ⟨w, hw⟩ := ih
    exact hw.valued_of_uses hd

/-- Legible nodes that come to values; below a clean one all is clean. -/
structure Sensible (g : Graph) (R : NodeId → Prop) (rank : NodeId → Nat) : Prop where
  legible : g.Legible R rank
  valued : Valued R g
  closed : Closed R g

theorem Sensible.setEvaluating (h : g.Sensible R rank) (evaluating : Bool) :
    (g.modifyCell n fun c => { c with evaluating }).Sensible R rank where
  legible := h.legible.setEvaluating evaluating
  valued := h.valued.of_node (cell_modifyCell_congr Cell.node (by exact fun _ => rfl))
  closed := closed_setEvaluating h.closed evaluating

end Graph

/-- Work that has made these nodes clean. -/
structure Works (R : NodeId → Prop) (rank : NodeId → Nat) (nodes : List NodeId) (g g' : Graph) : Prop where
  tidies : g.Tidies g'
  sensible : g'.Sensible R rank
  exactly : Exactly R g g'
  clean (m : NodeId) : m ∈ nodes → (g'.cell m).dirty = false

/-- Reading what is below `k` works out what has to be, once. -/
def ReadsExactly (R : NodeId → Prop) (rank : NodeId → Nat) (read : Reader) (k : Nat) : Prop :=
  ∀ {g : Graph} {n : NodeId}, g.Sensible R rank → R n → g.Ready rank k n →
    Works R rank [n] g ((read n).run.run g).2

section

variable {g g' g'' : Graph} {n : NodeId} {nodes nodes' : List NodeId} {R : NodeId → Prop} {rank : NodeId → Nat}
  {read : Reader} {k : Nat}

theorem Works.refl (h : g.Sensible R rank) (hclean : ∀ m ∈ nodes, (g.cell m).dirty = false) :
    Works R rank nodes g g :=
  ⟨.refl g, h, .refl g, hclean⟩

theorem Works.trans (h : Works R rank nodes g g') (h' : Works R rank nodes' g' g'') :
    Works R rank (nodes ++ nodes') g g'' where
  tidies := h.tidies.trans h'.tidies
  sensible := h'.sensible
  exactly := h.exactly.trans h'.exactly
  clean m hm := (List.mem_append.mp hm).elim (fun hm => (h'.tidies.clean m (h.clean m hm)).1) (h'.clean m)

/-- What has a value can be read up to the last. -/
theorem mapM_works (hread : ReadsPlainly R rank read k) (hexact : ReadsExactly R rank read k)
    (nodes : List NodeId) (h : g.Sensible R rank) (hnodes : ∀ m ∈ nodes, R m ∧ g.Ready rank k m) :
    Works R rank nodes g ((nodes.mapM read).run.run g).2 := by
  induction nodes generalizing g with
  | nil => exact .refl h fun m hm => (List.not_mem_nil hm).elim
  | cons m nodes ih =>
    obtain ⟨hm, hready⟩ := hnodes m List.mem_cons_self
    obtain ⟨v, hv⟩ := h.valued m hm
    have hvalue := (hread h.legible hm hready).1.right.unique hv
    have hfirst := hexact h hm hready
    rw [List.mapM_cons, run_bind_except]
    generalize (read m).run.run g = first at hvalue hfirst ⊢
    obtain ⟨result, g₁⟩ := first
    obtain rfl : result = .ok v := hvalue
    have hrest := ih hfirst.sensible fun d hd => by
      obtain ⟨hd, hready⟩ := hnodes d (List.mem_cons_of_mem _ hd)
      exact ⟨hd, hready.tidies hfirst.tidies⟩
    dsimp only
    rw [run_bind_except]
    generalize (nodes.mapM read).run.run g₁ = rest at hrest ⊢
    obtain ⟨e | values, g₂⟩ := rest
    · exact hfirst.trans hrest
    · exact hfirst.trans hrest

theorem compute_works (hread : ReadsPlainly R rank read k) (hexact : ReadsExactly R rank read k)
    (h : g.Sensible R rank) (hn : R n) (hready : ∀ d, g.Uses n d → g.Ready rank k d) :
    Works R rank (g.dependencies n) g ((compute read n).run.run g).2 := by
  have hbelow : ∀ d ∈ g.dependencies n, R d ∧ g.Ready rank k d := fun d hd =>
    ⟨h.legible.within n d hn hd, hready d hd⟩
  rw [run_compute]
  rw [dependencies] at hbelow ⊢
  cases hnode : g.node n with
  | constant value | input value => exact .refl h fun m hm => (List.not_mem_nil hm).elim
  | calculation operation operands offset tickets =>
    rw [hnode] at hbelow
    have hmapM := mapM_works hread hexact operands h hbelow
    dsimp only
    generalize (operands.mapM read).run.run g = r at hmapM ⊢
    obtain ⟨e | values, g'⟩ := r
    · exact hmapM
    · exact hmapM
  | expression scope source =>
    have hsteady := h.legible.steady n hn
    rw [hnode] at hsteady hbelow
    cases source with
    | unbuilt | edited => cases hsteady
    | built tree =>
      obtain ⟨hroot, hready⟩ := hbelow tree.root (List.mem_singleton_self _)
      dsimp only
      rw [run_currentTree]
      exact hexact h hroot hready

/-- A node that is worked out has a value, so it comes clean, after what it reads, and counts once. -/
theorem evaluateNode_works (hread : ReadsPlainly R rank read k) (hexact : ReadsExactly R rank read k)
    (h : g.Sensible R rank) (hn : R n) (hdirty : (g.cell n).dirty = true) (hlt : rank n < k)
    (hclear : g.ClearBelow rank (rank n)) : Works R rank [n] g ((evaluateNode read n).run.run g).2 := by
  have hidle : ¬ (g.cell n).evaluating = true := fun he => Nat.lt_irrefl _ (hclear n he)
  have hstart : ∀ m, (g.modifyCell n fun c => { c with evaluating := true }).node m = g.node m :=
    cell_modifyCell_congr Cell.node (by exact fun _ => rfl)
  have hdirty' : ((g.modifyCell n fun c => { c with evaluating := true }).cell n).dirty = true :=
    (cell_modifyCell_congr Cell.dirty (by exact fun _ => rfl) n).trans hdirty
  have hbusy : ((g.modifyCell n fun c => { c with evaluating := true }).cell n).evaluating = true := by
    rw [cell_modifyCell_self (lt_size_of_dirty hdirty)]
  have habove : ∀ x, ((g.modifyCell n fun c => { c with evaluating := true }).cell x).evaluating = true →
      rank n ≤ rank x := fun x hx => by
    by_cases hxn : x = n
    · rw [hxn]
    · rw [cell_modifyCell_of_ne hxn] at hx
      exact Nat.le_of_lt (hclear x hx)
  have hmarked := h.setEvaluating (n := n) true
  have hcomputed := compute_plain hread hmarked.legible hn hdirty' hlt habove
  have hworks := compute_works hread hexact hmarked hn fun d hd => by
    refine ⟨Nat.zero_lt_of_lt hlt, fun hdirtyd => ?_⟩
    have hfalls := hmarked.legible.falls n d hn hd hdirty' hdirtyd
    exact ⟨Nat.lt_of_le_of_lt hfalls hlt, fun x hx => Nat.lt_of_lt_of_le hfalls (habove x hx)⟩
  obtain ⟨hplain, hclean⟩ := evaluateNode_plain hread h.legible hn hdirty hlt hclear
  obtain ⟨v, hv⟩ := h.valued n hn
  have hvalue := hplain.right.unique hv
  rw [run_evaluateNode, if_neg hidle] at hplain hclean hvalue ⊢
  dsimp only at hplain hclean hvalue ⊢
  generalize (compute read n).run.run (g.modifyCell n fun c => { c with evaluating := true }) = computed
    at hcomputed hworks hplain hclean hvalue ⊢
  obtain ⟨result, g'⟩ := computed
  obtain rfl : result = .ok v := hvalue
  have hdirty'' : (g'.cell n).dirty = true := (hworks.tidies.busy n hbusy).trans hdirty'
  have hkept : Closed R ((keepResult n (.ok v)).run g').2 := closed_keepResult hworks.sensible.closed v fun d hd => by
    rw [hworks.tidies.alike.uses] at hd
    exact hworks.clean d hd
  exact
    { tidies := hplain.tidies
      sensible := ⟨hplain.legible, h.valued.of_node hplain.tidies.alike.node, hkept⟩
      exactly := (exactly_setEvaluating true).trans (hworks.exactly.trans (exactly_keepResult v hn hdirty''))
      clean := fun m hm => List.mem_singleton.mp hm ▸ hclean v rfl }

theorem settleAll_works (hread : ReadsPlainly R rank read k) (hexact : ReadsExactly R rank read k)
    {nodes : List NodeId} (h : g.Sensible R rank)
    (hnodes : ∀ m ∈ nodes, R m ∧ rank m < k ∧ g.ClearBelow rank (rank m)) :
    Works R rank [] g ((settleAll read nodes).run g).2 := by
  induction nodes generalizing g with
  | nil => exact .refl h fun m hm => (List.not_mem_nil hm).elim
  | cons n nodes ih =>
    rw [run_settleAll_cons]
    by_cases hdirty : (g.cell n).dirty = true
    · rw [if_pos hdirty]
      obtain ⟨hn, hlt, hclear⟩ := hnodes n List.mem_cons_self
      have hfirst := evaluateNode_works hread hexact h hn hdirty hlt hclear
      generalize (evaluateNode read n).run.run g = r at hfirst ⊢
      obtain ⟨e | v, g'⟩ := r
      · exact ⟨hfirst.tidies, hfirst.sensible, hfirst.exactly, fun _ hm => (List.not_mem_nil hm).elim⟩
      · have hrest := ih hfirst.sensible fun d hd => by
          obtain ⟨hd, hlt, hclear⟩ := hnodes d (List.mem_cons_of_mem _ hd)
          exact ⟨hd, hlt, hclear.alike hfirst.tidies.alike⟩
        exact ⟨hfirst.tidies.trans hrest.tidies, hrest.sensible, hfirst.exactly.trans hrest.exactly, hrest.clean⟩
    · rw [if_neg hdirty]
      exact ih h fun d hd => hnodes d (List.mem_cons_of_mem _ hd)

theorem settle_works (hread : ReadsPlainly R rank read k) (hexact : ReadsExactly R rank read k)
    (h : g.Sensible R rank) (hn : R n) (hdirty : (g.cell n).dirty = true) (hlt : rank n < k)
    (hclear : g.ClearBelow rank (rank n)) : Works R rank [] g ((settle read n).run g).2 := by
  have hmarked := h.setEvaluating (n := n) true
  have hdirty' : ((g.modifyCell n fun c => { c with evaluating := true }).cell n).dirty = true :=
    (cell_modifyCell_congr Cell.dirty (by exact fun _ => rfl) n).trans hdirty
  have hall := settleAll_works hread hexact hmarked fun m hm => by
    obtain ⟨hm, hbelow⟩ := hmarked.legible.settleOrder hn hdirty' m hm
    refine ⟨hm, Nat.lt_trans hbelow hlt, fun x hx => ?_⟩
    by_cases hxn : x = n
    · exact hxn ▸ hbelow
    · rw [cell_modifyCell_of_ne hxn] at hx
      exact Nat.lt_trans hbelow (hclear x hx)
  obtain ⟨htidies, -, -⟩ := settle_plain hread h.legible hn hdirty hlt hclear
  rw [run_settle] at htidies ⊢
  exact
    { tidies := htidies
      sensible := hall.sensible.setEvaluating false
      exactly := (exactly_setEvaluating true).trans (hall.exactly.trans (exactly_setEvaluating false))
      clean := fun _ hm => (List.not_mem_nil hm).elim }

theorem readWith_exactly (hread : ReadsPlainly R rank read k) (hexact : ReadsExactly R rank read k) :
    ReadsExactly R rank (readWith read) (k + 1) := by
  intro g n h hn hready
  rw [run_readWith]
  by_cases hdirty : (g.cell n).dirty = true
  · obtain ⟨hlt, hclear⟩ := hready.2 hdirty
    have hlt' := Nat.lt_of_succ_lt_succ hlt
    have hidle : ¬ (g.cell n).evaluating = true := fun he => Nat.lt_irrefl _ (hclear n he)
    obtain ⟨-, -, hdirty'⟩ := settle_plain hread h.legible hn hdirty hlt' hclear
    have hsettled := settle_works hread hexact h hn hdirty hlt' hclear
    rw [if_pos hdirty]
    dsimp only
    rw [if_neg hidle]
    exact hsettled.trans (evaluateNode_works hread hexact hsettled.sensible hn hdirty' hlt'
      (hclear.alike hsettled.tidies.alike))
  · have hclean := Bool.eq_false_iff.mpr hdirty
    obtain ⟨v, hv, -⟩ := h.legible.kept n hn hclean
    rw [if_neg hdirty, hv]
    exact .refl h fun m hm => List.mem_singleton.mp hm ▸ hclean

/-- By induction on how deep a read may go. -/
theorem readWithin_exactly (limit : Nat) : ReadsExactly R rank (readWithin limit) limit := by
  induction limit with
  | zero => exact fun _ _ hready => (Nat.lt_irrefl 0 hready.1).elim
  | succ limit ih => exact readWith_exactly (readWithin_plain limit) ih

/-- With the node all that it leads to is clean. -/
theorem Works.clean_below (h : Works (Relation.ReflTransGen g.Uses n) rank [n] g g') {m : NodeId}
    (hm : g.dependsOn n m = true) : (g'.cell m).dirty = false := by
  have huses := h.tidies.alike.uses
  have hm := dependsOn_iff.mp hm
  rw [← huses] at hm
  exact h.sensible.closed.clean h.sensible.legible.within .refl (h.clean n (List.mem_singleton_self n)) hm

theorem Works.evaluations (h : Works (Relation.ReflTransGen g.Uses n) rank [n] g g') (m : NodeId) :
    (g'.cell m).evaluations =
      (g.cell m).evaluations + if (g.cell m).dirty && g.dependsOn n m then 1 else 0 := by
  have honce := h.exactly.once m
  cases hd : g.dependsOn n m with
  | true =>
    rw [h.clean_below hd] at honce
    rw [Bool.and_true]
    cases hdirty : (g.cell m).dirty <;> simpa [hdirty] using honce
  | false =>
    have hnot : ¬ Relation.ReflTransGen g.Uses n m := fun hm => by
      rw [dependsOn_iff.mpr hm] at hd
      cases hd
    rw [h.exactly.only m hnot] at honce
    rw [Bool.and_false]
    exact Nat.add_right_cancel honce

end

namespace Workspace

variable {w : Workspace} {n : NodeId}

/-- In every state that is reached and in which no formula waits to be built, a read that gives a value works
out each dirty node that the node depends on, itself among them, once and nothing else; what it depends on is
clean then. So nothing is worked out for a clean node. -/
theorem evaluations_of_read {limit : Nat} {steps : List Step}
    (h : Workspace.run limit {} (steps.map .perform) = some w)
    (hsteady : ∀ m, w.graph.isLive m = true → (w.graph.node m).isPending = false)
    (hn : w.graph.isLive n = true) {v : Value} {g : Graph} (hr : w.graph.read n = (.ok v, g)) :
    (∀ m, (g.cell m).evaluations = (w.graph.cell m).evaluations +
      if (w.graph.cell m).dirty && w.graph.dependsOn n m then 1 else 0) ∧
    (∀ m, w.graph.dependsOn n m = true → (g.cell m).dirty = false) ∧
    ((w.graph.cell n).dirty = false → ∀ m, (g.cell m).evaluations = (w.graph.cell m).evaluations) := by
  obtain ⟨hsound, horderly⟩ := endures_of_run Graph.endures_orderly orderly_empty h
  obtain ⟨rank, hbound, hfalls⟩ := horderly.exists_rank
  have hlive : ∀ m, Relation.ReflTransGen w.graph.Uses n m → 0 < (w.graph.cell m).owners := fun m hm => by
    induction hm with
    | refl => exact of_decide_eq_true hn
    | tail _ hd ih => exact hsound.accounts.dependency_live ih hd
  have hlegible : w.graph.Legible (Relation.ReflTransGen w.graph.Uses n) rank :=
    Graph.Sound.legible hsound hlive (fun m hm => hsteady m (decide_eq_true (hlive m hm)))
      fun m d hm hd => ⟨hm.tail hd, hfalls m d hd⟩
  have hlimit : rank n + 1 < w.graph.depthLimit := by
    have := hbound n (lt_size_of_owners_pos (of_decide_eq_true hn))
    rw [Graph.depthLimit]
    omega
  have hready : w.graph.Ready rank w.graph.depthLimit n := by
    refine ⟨Nat.zero_lt_of_lt hlimit, fun _ => ⟨hlimit, fun x hx => ?_⟩⟩
    rw [idle_of_run h x] at hx
    cases hx
  have hclosed : Closed (Relation.ReflTransGen w.graph.Uses n) w.graph := fun m d hm hd hclean =>
    (hsound.coherent.fresh m (hlive m hm) hclean List.not_mem_nil).1 d hd
  have hplain := (readWithin_plain w.graph.depthLimit hlegible .refl hready).1
  rw [Graph.read, run_readNode] at hr
  have hvalue : w.graph.Evaluates n (.ok v) := by
    have hright := hplain.right
    rwa [hr] at hright
  have hworks := readWithin_exactly w.graph.depthLimit ⟨hlegible, hvalue.valued, hclosed⟩ .refl hready
  rw [hr] at hworks
  refine ⟨hworks.evaluations, fun m => hworks.clean_below, fun hclean m => ?_⟩
  rw [hworks.evaluations m]
  by_cases hm : w.graph.dependsOn n m = true
  · rw [hclosed.clean hlegible.within .refl hclean (dependsOn_iff.mp hm)]
    rfl
  · rw [Bool.eq_false_iff.mpr hm, Bool.and_false]
    rfl

/-- "c" and "d" both read "b". -/
def sharingSteps : List Step :=
  [.record "r" none, .input "r" "a" "a" (.bool true), .expression "r" "b" "b" "!a",
    .expression "r" "c" "c" "b && a", .expression "r" "d" "d" "c || b", .read "d", .set "a" (.bool false)]

theorem evaluations_of_shared :
    ∃ w n b v g, Workspace.run 100 {} (sharingSteps.map .perform) = some w ∧ w.handles["d"]? = some n ∧
      w.handles["b"]? = some b ∧ (∀ m, w.graph.isLive m = true → (w.graph.node m).isPending = false) ∧
        w.graph.isLive n = true ∧ w.graph.read n = (.ok v, g) ∧ (w.graph.cell b).dirty = true ∧
          (w.graph.cell b).evaluations = 1 ∧ (g.cell b).evaluations = 2 ∧ (g.cell b).dirty = false := by
  have hread : ((Workspace.run 100 {} (sharingSteps.map .perform)).bind fun w =>
      w.handles["d"]?.bind fun n => w.handles["b"]?.map fun b =>
        (w.graph.cells.all (fun c => c.owners == 0 || !c.node.isPending), w.graph.isLive n,
          (w.graph.read n).1.isOk, (w.graph.cell b).dirty, (w.graph.cell b).evaluations, w.graph.dependsOn n b)) =
        some (true, true, true, true, 1, true) := by
    decide +kernel
  obtain ⟨w, hw, hread⟩ := Option.bind_eq_some_iff.mp hread
  obtain ⟨n, hn, hread⟩ := Option.bind_eq_some_iff.mp hread
  obtain ⟨b, hb, hread⟩ := Option.map_eq_some_iff.mp hread
  simp only [Prod.mk.injEq] at hread
  obtain ⟨hall, hlive, hok, hdirty, hcount, hdepends⟩ := hread
  have hsteady := steady_of_all hall
  rcases hr : w.graph.read n with ⟨e | v, g⟩
  · rw [hr] at hok
    cases hok
  · obtain ⟨hevaluations, hclean, -⟩ := evaluations_of_read hw hsteady hlive hr
    have hb' := hevaluations b
    rw [hdirty, hdepends, hcount] at hb'
    exact ⟨w, n, b, v, g, hw, hn, hb, hsteady, hlive, hr, hdirty, hcount, hb', hclean b hdepends⟩

end Workspace

end FormulaGraph
