import FormulaGraph.Proofs.Plain
import FormulaGraph.Proofs.Stages

/-! A read does not meet a node that is being worked out, unless a formula is built meanwhile: what is read
lies below what is being worked out, and between steps nothing is. -/

namespace FormulaGraph

open FormulaGraph.Graph

/-- Working a node out, with `alarm` if that is under way already. -/
def evaluateNodeOr (alarm : Reading Value) (read : Reader) (n : NodeId) : Reading Value := do
  if (← getCell n).evaluating then alarm
  else
    setEvaluating n true
    let result ← attempt (compute read n)
    keepResult n result
    ExceptT.mk (return result)

def settleAllOr (alarm : Reading Value) (read : Reader) : List NodeId → StateM Graph Unit
  | [] => return
  | n :: rest => do
    if ((← get).cell n).dirty then
      match ← (evaluateNodeOr alarm read n).run with
      | .ok _ => settleAllOr alarm read rest
      | .error _ => return
    else settleAllOr alarm read rest

def settleOr (alarm : Reading Value) (read : Reader) (n : NodeId) : StateM Graph Unit := do
  setEvaluating n true
  settleAllOr alarm read ((← get).settleOrder n)
  setEvaluating n false

def readWithOr (alarm : Reading Value) (read : Reader) (n : NodeId) : Reading Value := do
  let c ← getCell n
  match if c.dirty then none else c.cache with
  | some value => return value
  | none =>
    if c.evaluating then alarm
    else
      settleOr alarm read n
      evaluateNodeOr alarm read n

/-- Reading with `alarm` wherever a node is met that is being worked out. -/
def readWithinOr (alarm : Reading Value) : Nat → Reader
  | 0, _ => throw depthError
  | limit + 1, n => readWithOr alarm (readWithinOr alarm limit) n

section

variable {g g' : Graph} {n : NodeId} {R : NodeId → Prop} {rank : NodeId → Nat} {read read' : Reader}

theorem run_evaluateNodeOr (alarm : Reading Value) (read : Reader) (n : NodeId) (g : Graph) :
    (evaluateNodeOr alarm read n).run.run g =
      if (g.cell n).evaluating then alarm.run.run g
      else
        let computed := (compute read n).run.run (g.modifyCell n fun c => { c with evaluating := true })
        (computed.1, ((keepResult n computed.1).run computed.2).2) := by
  rw [evaluateNodeOr, run_bind_except, run_getCell]
  dsimp only
  split
  · rfl
  · rfl

theorem run_settleAllOr_cons (alarm : Reading Value) (read : Reader) (n : NodeId) (rest : List NodeId)
    (g : Graph) :
    (settleAllOr alarm read (n :: rest)).run g =
      if (g.cell n).dirty then
        match (evaluateNodeOr alarm read n).run.run g with
        | (.ok _, g') => (settleAllOr alarm read rest).run g'
        | (.error _, g') => ((), g')
      else (settleAllOr alarm read rest).run g := by
  rw [settleAllOr, StateT.run_bind, StateT.run_get, pure_bind]
  dsimp only
  split
  · rw [StateT.run_bind]
    rcases (evaluateNodeOr alarm read n).run.run g with ⟨e | v, g'⟩ <;> rfl
  · rfl

theorem run_settleOr (alarm : Reading Value) (read : Reader) (n : NodeId) (g : Graph) :
    (settleOr alarm read n).run g =
      let g := g.modifyCell n fun c => { c with evaluating := true }
      ((), ((settleAllOr alarm read (g.settleOrder n)).run g).2.modifyCell n fun c =>
        { c with evaluating := false }) := rfl

theorem run_readWithOr (alarm : Reading Value) (read : Reader) (n : NodeId) (g : Graph) :
    (readWithOr alarm read n).run.run g =
      match if (g.cell n).dirty then none else (g.cell n).cache with
      | some value => (.ok value, g)
      | none =>
        if (g.cell n).evaluating then alarm.run.run g
        else (evaluateNodeOr alarm read n).run.run ((settleOr alarm read n).run g).2 := by
  rw [readWithOr, run_bind_except, run_getCell]
  dsimp only
  cases if (g.cell n).dirty then none else (g.cell n).cache with
  | some value => rfl
  | none =>
    dsimp only
    split <;> rfl

theorem evaluateNodeOr_cycleError (read : Reader) (n : NodeId) :
    evaluateNodeOr (throw cycleError) read n = evaluateNode read n := by
  refine ExceptT.ext (StateT.ext fun g => ?_)
  rw [run_evaluateNodeOr, run_evaluateNode]
  rfl

theorem settleAllOr_cycleError (read : Reader) (nodes : List NodeId) :
    settleAllOr (throw cycleError) read nodes = settleAll read nodes := by
  induction nodes with
  | nil => rfl
  | cons n nodes ih =>
    refine StateT.ext fun g => ?_
    have hrun := run_settleAllOr_cons (throw cycleError) read n nodes g
    rw [evaluateNodeOr_cycleError, ih] at hrun
    exact hrun.trans (run_settleAll_cons read n nodes g).symm

theorem settleOr_cycleError (read : Reader) (n : NodeId) : settleOr (throw cycleError) read n = settle read n := by
  refine StateT.ext fun g => ?_
  rw [run_settleOr, run_settle]
  dsimp only
  rw [settleAllOr_cycleError]

theorem readWithOr_cycleError (read : Reader) : readWithOr (throw cycleError) read = readWith read := by
  funext n
  refine ExceptT.ext (StateT.ext fun g => ?_)
  rw [run_readWithOr, run_readWith, evaluateNodeOr_cycleError, settleOr_cycleError]
  rfl

/-- The alarm of a read is the failure for a cycle. -/
theorem readWithinOr_cycleError (limit : Nat) : readWithinOr (throw cycleError) limit = readWithin limit := by
  induction limit with
  | zero => rfl
  | succ limit ih =>
    funext n
    rw [readWithinOr, readWithOr_cycleError, ih, readWithin]

namespace Graph

/-- Nodes that read only one another, each one of lower rank than itself. None of them waits to be built. -/
structure Calm (g : Graph) (R : NodeId → Prop) (rank : NodeId → Nat) : Prop where
  steady (n : NodeId) : R n → (g.node n).isPending = false
  falls (n d : NodeId) : R n → g.Uses n d → R d ∧ rank d < rank n
  cached (n : NodeId) : R n → (g.cell n).dirty = false → ∃ v, (g.cell n).cache = some v

theorem Calm.of_node (h : g.Calm R rank) (hnode : ∀ m, g'.node m = g.node m)
    (hcached : ∀ n, R n → (g'.cell n).dirty = false → ∃ v, (g'.cell n).cache = some v) : g'.Calm R rank where
  steady n hn := by
    rw [hnode]
    exact h.steady n hn
  falls n d hn hd := by
    rw [Uses, dependencies, hnode] at hd
    exact h.falls n d hn hd
  cached := hcached

theorem Calm.modifyCell {f : Cell → Cell} (h : g.Calm R rank) (hnode : ∀ c, (f c).node = c.node)
    (hdirty : ∀ c, (f c).dirty = c.dirty) (hcache : ∀ c, (f c).cache = c.cache) :
    (g.modifyCell n f).Calm R rank :=
  h.of_node (cell_modifyCell_congr Cell.node hnode) fun m hm hclean => by
    rw [cell_modifyCell_congr Cell.dirty hdirty] at hclean
    rw [cell_modifyCell_congr Cell.cache hcache]
    exact h.cached m hm hclean

theorem Calm.setEvaluating (h : g.Calm R rank) (evaluating : Bool) :
    (g.modifyCell n fun c => { c with evaluating }).Calm R rank :=
  h.modifyCell (by exact fun _ => rfl) (by exact fun _ => rfl) (by exact fun _ => rfl)

/-- Whatever has a result is clean and has one kept. -/
theorem Calm.keepResult (h : g.Calm R rank) (result : Checked Value) :
    ((keepResult n result).run g).2.Calm R rank := by
  cases result with
  | error e =>
    rw [run_keepResult_error]
    exact h.modifyCell (by exact fun _ => rfl) (by exact fun _ => rfl) (by exact fun _ => rfl)
  | ok v =>
    rw [run_keepResult_ok]
    refine h.of_node (cell_modifyCell_congr Cell.node (by exact fun _ => rfl)) fun m hm hclean => ?_
    rw [cell_modifyCell] at hclean ⊢
    split
    · exact ⟨v, rfl⟩
    next hother =>
      rw [if_neg hother] at hclean
      exact h.cached m hm hclean

theorem Calm.settleOrder (h : g.Calm R rank) (hn : R n) : ∀ m ∈ g.settleOrder n, R m ∧ rank m < rank n := by
  have hinputs : ∀ {m d}, R m → d ∈ g.inputs m → R d ∧ rank d < rank m := fun hm hd => by
    rw [inputs_of_steady (h.steady _ hm)] at hd
    exact h.falls _ _ hm hd
  intro m hm
  refine (mem_settleOrder (Q := fun m => R m ∧ rank m < rank n) (fun m hm _ d hd => ?_) (fun d hd => ?_) m hm).1
  · obtain ⟨hd, hlt⟩ := hinputs hm.1 hd
    exact ⟨hd, Nat.lt_trans hlt hm.2⟩
  · exact hinputs hn hd

end Graph

/-- The same with an alarm, nothing changed but what is kept, and no failure that tells of a cycle. -/
structure Unguarded {α : Type} (g : Graph) (R : NodeId → Prop) (rank : NodeId → Nat)
    (result result' : Checked α × Graph) : Prop where
  same : result' = result
  tidies : g.Tidies result.2
  calm : result.2.Calm R rank
  acyclic (e : FormulaError) : result.1 = .error e → e.cause ≠ .cycle

theorem Unguarded.ok {α : Type} {a : α} (htidies : g.Tidies g') (hcalm : g'.Calm R rank) :
    Unguarded g R rank (.ok a, g') (.ok a, g') :=
  ⟨rfl, htidies, hcalm, fun _ he => by cases he⟩

/-- A failure is handed on. -/
theorem Unguarded.error {α β : Type} {e : FormulaError} {result : Checked α × Graph}
    (h : Unguarded g R rank (.error e, g') result) :
    Unguarded g R rank ((.error e, g') : Checked β × Graph) (.error e, g') :=
  ⟨rfl, h.tidies, h.calm, fun e' he => h.acyclic e' (by rw [Except.error.inj he])⟩

theorem Unguarded.after {α : Type} {result result' : Checked α × Graph} (htidies : g.Tidies g')
    (h : Unguarded g' R rank result result') : Unguarded g R rank result result' :=
  ⟨h.same, htidies.trans h.tidies, h.calm, h.acyclic⟩

/-- Reading what is below everything that is being worked out meets no guard. -/
def ReadsUnguarded (R : NodeId → Prop) (rank : NodeId → Nat) (read read' : Reader) : Prop :=
  ∀ {g : Graph} {n : NodeId}, g.Calm R rank → R n → g.ClearBelow rank (rank n) →
    Unguarded g R rank ((read n).run.run g) ((read' n).run.run g)

theorem mapM_unguarded (hread : ReadsUnguarded R rank read read') (nodes : List NodeId) (h : g.Calm R rank)
    (hnodes : ∀ m ∈ nodes, R m ∧ g.ClearBelow rank (rank m)) :
    Unguarded g R rank ((nodes.mapM read).run.run g) ((nodes.mapM read').run.run g) := by
  induction nodes generalizing g with
  | nil => exact .ok (.refl g) h
  | cons m nodes ih =>
    obtain ⟨hm, hclear⟩ := hnodes m List.mem_cons_self
    have hfirst := hread h hm hclear
    rw [List.mapM_cons, List.mapM_cons, run_bind_except, run_bind_except, hfirst.same]
    generalize (read m).run.run g = first at hfirst ⊢
    obtain ⟨e | v, g₁⟩ := first
    · exact hfirst.error
    · have hrest := ih hfirst.calm fun d hd => by
        obtain ⟨hd, hclear⟩ := hnodes d (List.mem_cons_of_mem _ hd)
        exact ⟨hd, hclear.alike hfirst.tidies.alike⟩
      dsimp only
      rw [run_bind_except, run_bind_except, hrest.same]
      generalize (nodes.mapM read).run.run g₁ = rest at hrest ⊢
      refine .after hfirst.tidies ?_
      obtain ⟨e | values, g₂⟩ := rest
      · exact hrest.error
      · exact .ok hrest.tidies hrest.calm

theorem compute_unguarded (hread : ReadsUnguarded R rank read read') (h : g.Calm R rank) (hn : R n)
    (hclear : ∀ x, (g.cell x).evaluating = true → rank n ≤ rank x) :
    Unguarded g R rank ((compute read n).run.run g) ((compute read' n).run.run g) := by
  have hbelow : ∀ d, g.Uses n d → R d ∧ g.ClearBelow rank (rank d) := fun d hd => by
    obtain ⟨hd, hlt⟩ := h.falls n d hn hd
    exact ⟨hd, fun x hx => Nat.lt_of_lt_of_le hlt (hclear x hx)⟩
  rw [run_compute, run_compute]
  cases hnode : g.node n with
  | constant value | input value => exact .ok (.refl g) h
  | calculation operation operands offset tickets =>
    have hmapM := mapM_unguarded hread operands h fun m hm =>
      hbelow m (by rw [Graph.Uses, dependencies, hnode]; exact hm)
    dsimp only
    rw [hmapM.same]
    generalize (operands.mapM read).run.run g = r at hmapM ⊢
    obtain ⟨e | values, g'⟩ := r
    · exact hmapM.error
    · refine ⟨rfl, hmapM.tidies, hmapM.calm, fun e he => ?_⟩
      dsimp only at he
      rw [applyAt] at he
      split at he
      · cases he
      · cases he
        simp [ValueFault.at]
  | expression scope source =>
    have hsteady := h.steady n hn
    rw [hnode] at hsteady
    cases source with
    | unbuilt | edited => cases hsteady
    | built tree =>
      obtain ⟨hroot, hclear⟩ := hbelow tree.root (by
        rw [Graph.Uses, dependencies, hnode]
        exact List.mem_singleton_self _)
      have hroot := hread h hroot hclear
      dsimp only
      rw [run_currentTree, run_currentTree]
      dsimp only
      rw [hroot.same]
      refine ⟨rfl, hroot.tidies, hroot.calm, fun e he => ?_⟩
      generalize (read tree.root).run.run g = r at hroot he
      obtain ⟨e' | v, g'⟩ := r
      · cases he
        rw [FormulaError.cause_attach]
        exact hroot.acyclic e' rfl
      · cases he

theorem evaluateNode_unguarded (alarm : Reading Value) (hread : ReadsUnguarded R rank read read')
    (h : g.Calm R rank) (hn : R n) (hdirty : (g.cell n).dirty = true) (hclear : g.ClearBelow rank (rank n)) :
    Unguarded g R rank ((evaluateNode read n).run.run g) ((evaluateNodeOr alarm read' n).run.run g) := by
  have hidle : ¬ (g.cell n).evaluating = true := fun he => Nat.lt_irrefl _ (hclear n he)
  have hcomputed := compute_unguarded hread (h.setEvaluating (n := n) true) hn fun x hx => by
    by_cases hxn : x = n
    · rw [hxn]
    · rw [cell_modifyCell_of_ne hxn] at hx
      exact Nat.le_of_lt (hclear x hx)
  rw [run_evaluateNode, run_evaluateNodeOr, if_neg hidle, if_neg hidle]
  dsimp only
  rw [hcomputed.same]
  generalize (compute read n).run.run (g.modifyCell n fun c => { c with evaluating := true }) = computed
    at hcomputed ⊢
  obtain ⟨result, g'⟩ := computed
  refine ⟨rfl, ?_, hcomputed.calm.keepResult result, hcomputed.acyclic⟩
  cases result with
  | error e =>
    rw [run_keepResult_error]
    exact hcomputed.tidies.unmark (by exact fun _ => rfl) (by exact fun _ => rfl) hidle hdirty
  | ok v =>
    rw [run_keepResult_ok]
    exact hcomputed.tidies.unmark (by exact fun _ => rfl) (by exact fun _ => rfl) hidle hdirty

theorem settleAll_unguarded (alarm : Reading Value) (hread : ReadsUnguarded R rank read read')
    {nodes : List NodeId} (h : g.Calm R rank) (hnodes : ∀ m ∈ nodes, R m ∧ g.ClearBelow rank (rank m)) :
    (settleAllOr alarm read' nodes).run g = (settleAll read nodes).run g ∧
      g.Tidies ((settleAll read nodes).run g).2 ∧ ((settleAll read nodes).run g).2.Calm R rank := by
  induction nodes generalizing g with
  | nil => exact ⟨rfl, .refl g, h⟩
  | cons n nodes ih =>
    rw [run_settleAll_cons, run_settleAllOr_cons]
    by_cases hdirty : (g.cell n).dirty = true
    · rw [if_pos hdirty, if_pos hdirty]
      obtain ⟨hn, hclear⟩ := hnodes n List.mem_cons_self
      have hfirst := evaluateNode_unguarded alarm hread h hn hdirty hclear
      rw [hfirst.same]
      generalize (evaluateNode read n).run.run g = r at hfirst ⊢
      obtain ⟨e | v, g'⟩ := r
      · exact ⟨rfl, hfirst.tidies, hfirst.calm⟩
      · obtain ⟨hsame, htidies, hcalm⟩ := ih hfirst.calm fun d hd => by
          obtain ⟨hd, hclear⟩ := hnodes d (List.mem_cons_of_mem _ hd)
          exact ⟨hd, hclear.alike hfirst.tidies.alike⟩
        exact ⟨hsame, hfirst.tidies.trans htidies, hcalm⟩
    · rw [if_neg hdirty, if_neg hdirty]
      exact ih h fun d hd => hnodes d (List.mem_cons_of_mem _ hd)

/-- What is settled is below the node, which is the one that is marked. -/
theorem settle_unguarded (alarm : Reading Value) (hread : ReadsUnguarded R rank read read') (h : g.Calm R rank)
    (hn : R n) (hdirty : (g.cell n).dirty = true) (hclear : g.ClearBelow rank (rank n)) :
    (settleOr alarm read' n).run g = (settle read n).run g ∧ g.Tidies ((settle read n).run g).2 ∧
      ((settle read n).run g).2.Calm R rank ∧ (((settle read n).run g).2.cell n).dirty = true := by
  have hidle : ¬ (g.cell n).evaluating = true := fun he => Nat.lt_irrefl _ (hclear n he)
  have hstart := h.setEvaluating (n := n) true
  have hdirty' : ((g.modifyCell n fun c => { c with evaluating := true }).cell n).dirty = true :=
    (cell_modifyCell_congr Cell.dirty (by exact fun _ => rfl) n).trans hdirty
  have hbusy : ((g.modifyCell n fun c => { c with evaluating := true }).cell n).evaluating = true := by
    rw [cell_modifyCell_self (lt_size_of_dirty hdirty)]
  have hall := settleAll_unguarded alarm hread hstart fun m hm => by
    obtain ⟨hm, hbelow⟩ := hstart.settleOrder hn m hm
    refine ⟨hm, fun x hx => ?_⟩
    by_cases hxn : x = n
    · exact hxn ▸ hbelow
    · rw [cell_modifyCell_of_ne hxn] at hx
      exact Nat.lt_trans hbelow (hclear x hx)
  rw [run_settle, run_settleOr]
  dsimp only
  obtain ⟨hsame, htidies, hcalm⟩ := hall
  rw [hsame]
  refine ⟨rfl, htidies.unmark (by exact fun _ => rfl) (by exact fun _ => rfl) hidle hdirty,
    hcalm.setEvaluating false, ?_⟩
  rw [cell_modifyCell_congr Cell.dirty (by exact fun _ => rfl), htidies.busy n hbusy]
  exact hdirty'

theorem readWith_unguarded (alarm : Reading Value) (hread : ReadsUnguarded R rank read read') :
    ReadsUnguarded R rank (readWith read) (readWithOr alarm read') := by
  intro g n h hn hclear
  rw [run_readWith, run_readWithOr]
  by_cases hdirty : (g.cell n).dirty = true
  · have hidle : ¬ (g.cell n).evaluating = true := fun he => Nat.lt_irrefl _ (hclear n he)
    obtain ⟨hsame, htidies, hcalm, hdirty'⟩ := settle_unguarded alarm hread h hn hdirty hclear
    have hevaluated := evaluateNode_unguarded alarm hread hcalm hn hdirty' (hclear.alike htidies.alike)
    rw [if_pos hdirty]
    dsimp only
    rw [if_neg hidle, if_neg hidle, hsame]
    exact .after htidies hevaluated
  · obtain ⟨v, hv⟩ := h.cached n hn (Bool.eq_false_iff.mpr hdirty)
    rw [if_neg hdirty, hv]
    exact .ok (.refl g) h

theorem readWithin_unguarded (alarm : Reading Value) (limit : Nat) :
    ReadsUnguarded R rank (readWithin limit) (readWithinOr alarm limit) := by
  induction limit with
  | zero =>
    intro g n h _ _
    show Unguarded g R rank (.error depthError, g) (.error depthError, g)
    refine ⟨rfl, .refl g, h, fun e he => ?_⟩
    cases he
    nofun
  | succ limit ih => exact readWith_unguarded alarm ih

end

namespace Workspace

/-- Whenever no formula waits to be built, a read meets no node that is being worked out: it is the same read
whatever is done at such a node, and its failures tell of no cycle. -/
theorem read_unguarded (k : Nat) (steps : List Step) {n : NodeId} {g : Graph}
    (hg : (after k (steps.map .perform) {}).2.graph = g)
    (hsteady : ∀ m, g.isLive m = true → (g.node m).isPending = false) (hn : g.isLive n = true) :
    (∀ alarm, (readWithinOr alarm g.depthLimit n).run.run g = g.read n) ∧
      ∀ e, (g.read n).1 = .error e → e.cause ≠ .cycle := by
  obtain ⟨hsound, -⟩ := sound_after (P := fun _ => True) (fun _ _ _ _ _ _ => trivial) trivial k steps
  have ho := endures_after Graph.endures_orderly orderly_empty k steps
  have hidle := idle_after k steps
  rw [Workspace.Sound] at hsound
  rw [hg] at hsound ho hidle
  obtain ⟨rank, -, hfalls⟩ := ho.exists_rank
  have hcalm : g.Calm (fun m => 0 < (g.cell m).owners) rank :=
    { steady := fun m hm => hsteady m (decide_eq_true hm)
      falls := fun m d hm hd => ⟨hsound.accounts.dependency_live hm hd, hfalls m d hd⟩
      cached := hsound.coherent.cached }
  have hclear : g.ClearBelow rank (rank n) := fun x hx => by
    rw [hidle x] at hx
    cases hx
  have hread := fun alarm => readWithin_unguarded alarm g.depthLimit hcalm (of_decide_eq_true hn) hclear
  rw [Graph.read, run_readNode]
  exact ⟨fun alarm => (hread alarm).same, (hread (throw cycleError)).acyclic⟩

/-- A read that fails, before it is tried again. -/
def retriedSteps : List Step := failingSteps ++ [.read "c"]

theorem read_unguarded_of_failing :
    ∃ g n e, (after 30 (retriedSteps.map .perform) {}).2.graph = g ∧
      (∀ m, g.isLive m = true → (g.node m).isPending = false) ∧ g.isLive n = true ∧
        (g.read n).1 = .error e ∧ e.cause ≠ .cycle ∧
          ∀ alarm, (readWithinOr alarm g.depthLimit n).run.run g = g.read n := by
  have hread : ((after 30 (retriedSteps.map .perform) {}).2.handles["c"]?.map fun n =>
      ((after 30 (retriedSteps.map .perform) {}).2.graph.cells.all
        (fun c => c.owners == 0 || !c.node.isPending),
        (after 30 (retriedSteps.map .perform) {}).2.graph.isLive n,
        ((after 30 (retriedSteps.map .perform) {}).2.graph.read n).1.toOption.isNone)) =
        some (true, true, true) := by
    decide +kernel
  generalize hg : (after 30 (retriedSteps.map .perform) {}).2.graph = g at hread
  obtain ⟨n, -, hread⟩ := Option.map_eq_some_iff.mp hread
  obtain ⟨hall, hread⟩ := Prod.mk.inj hread
  obtain ⟨hlive, hfails⟩ := Prod.mk.inj hread
  obtain ⟨hsame, hacyclic⟩ := read_unguarded 30 retriedSteps hg (steady_of_all hall) hlive
  cases hr : (g.read n).1 with
  | ok v =>
    rw [hr] at hfails
    cases hfails
  | error e => exact ⟨g, n, e, rfl, steady_of_all hall, hlive, hr, hacyclic e hr, hsame⟩

end Workspace

end FormulaGraph
