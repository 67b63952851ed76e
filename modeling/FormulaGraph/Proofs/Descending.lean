import FormulaGraph.Proofs.Lexing
import FormulaGraph.Proofs.Stages
import Mathlib.Data.Finset.Card

/-! How deep a read goes. Of the nodes that were there at first, one more is being worked out at every second
step down, and what has been made on the way leads back to those or has a value already. So a read comes to an
end, in whatever circle formulas name each other. -/

namespace FormulaGraph

open FormulaGraph.Graph

/-- Reading with `bottom` for what lies deeper than the limit. -/
def readFrom (bottom : Reader) : Nat → Reader
  | 0 => bottom
  | limit + 1 => readWith (readFrom bottom limit)

theorem readFrom_add (bottom : Reader) (limit more : Nat) :
    readFrom (readFrom bottom more) limit = readFrom bottom (limit + more) := by
  induction limit with
  | zero => rw [readFrom, Nat.zero_add]
  | succ limit ih => rw [Nat.succ_add, readFrom, readFrom, ih]

namespace Graph

variable {g g' : Graph} {base : Nat} {n m d : NodeId} {ext : List Hold}

/-- It was there at first, or has been worked out. -/
def Grounded (base : Nat) (g : Graph) (n : NodeId) : Prop := n < base ∨ n < g.cells.size ∧ (g.cell n).dirty = false

/-- What has been added has been made for formulas, and what anything reads is grounded. -/
structure Founded (base : Nat) (g : Graph) : Prop where
  le : base ≤ g.cells.size
  made (n : NodeId) : base ≤ n → n < g.cells.size → (g.node n).isMade = true
  uses (n d : NodeId) : g.Uses n d → g.Grounded base d
  members {r : RecordId} {n : NodeId} : 0 < (g.record r).owners → .node n ∈ (g.record r).holds → n < base

/-- How many of the first nodes are not being worked out. -/
def idle (base : Nat) (g : Graph) : Nat := ((Finset.range base).filter fun n => (g.cell n).evaluating = false).card

theorem Grounded.of_clean (h : g.Grounded base n) (hsize : g.cells.size ≤ g'.cells.size)
    (hclean : n < g.cells.size → (g.cell n).dirty = false → (g'.cell n).dirty = false) : g'.Grounded base n :=
  h.imp_right fun ⟨hlt, hn⟩ => ⟨Nat.lt_of_lt_of_le hlt hsize, hclean hlt hn⟩

theorem Grounded.grows (h : g.Grounded base n) (hg : g.Grows g') : g'.Grounded base n :=
  h.of_clean hg.size fun hlt hn => (hg.clean n trivial hlt hn).1

theorem Grounded.lt_of_dirty (h : g.Grounded base n) (hdirty : (g.cell n).dirty = true) : n < base := by
  rcases h with hlt | ⟨-, hclean⟩
  · exact hlt
  · rw [hdirty] at hclean
    cases hclean

theorem Accounts.founded (h : g.Accounts ext) (hwithin : ∀ n d, g.Uses n d → d < g.cells.size) :
    g.Founded g.cells.size where
  le := Nat.le_refl _
  made _ hle hlt := (Nat.not_lt.mpr hle hlt).elim
  uses n d hd := .inl (hwithin n d hd)
  members hr hn := lt_size_of_owners_pos ((Anchored.member hr hn).live h)

theorem Founded.step (h : g.Founded base) (hrecords : g'.records = g.records) (hsize : g.cells.size ≤ g'.cells.size)
    (hmade : ∀ n, base ≤ n → n < g'.cells.size → (g'.node n).isMade = true)
    (hgrounded : ∀ d, g.Grounded base d → g'.Grounded base d)
    (huses : ∀ n, ∀ d ∈ g'.dependencies n, d ∈ g.dependencies n ∨ g'.Grounded base d) : g'.Founded base where
  le := Nat.le_trans h.le hsize
  made := hmade
  uses n d hd := (huses n d hd).elim (fun hold => hgrounded d (h.uses n d hold)) id
  members {r n} hr hn := by
    rw [record, hrecords] at hr hn
    exact h.members hr hn

/-- Nothing changes but that more nodes have been worked out. -/
theorem Founded.of_node (h : g.Founded base) (hrecords : g'.records = g.records)
    (hsize : g'.cells.size = g.cells.size) (hnode : ∀ m, g'.node m = g.node m)
    (hclean : ∀ m, (g.cell m).dirty = false → (g'.cell m).dirty = false) : g'.Founded base :=
  h.step hrecords (Nat.le_of_eq hsize.symm) (fun m hle hlt => by
      rw [hnode]
      exact h.made m hle (hsize ▸ hlt))
    (fun d hd => hd.of_clean (Nat.le_of_eq hsize.symm) fun _ => hclean d) fun m d hd => .inl (by
      rwa [dependencies, hnode] at hd)

theorem Founded.of_core (h : g.Founded base) (hrecords : g'.records = g.records)
    (hsize : g'.cells.size = g.cells.size) (hcore : ∀ m, (g'.cell m).core = (g.cell m).core) : g'.Founded base :=
  h.of_node hrecords hsize (fun m => congrArg (·.1) (hcore m)) fun m hm =>
    (congrArg (·.2.2.1) (hcore m)).trans hm

theorem Founded.release (h : g.Founded base) {holds : List Hold} (hx : ∀ x ∈ holds, x.isRecord = false) :
    (g.release holds).Founded base :=
  h.of_core (records_release hx) size_release core_release

theorem Founded.setEvaluating (h : g.Founded base) (evaluating : Bool) :
    (g.modifyCell n fun c => { c with evaluating }).Founded base :=
  h.of_node rfl size_modifyCell (cell_modifyCell_congr Cell.node (by exact fun _ => rfl)) fun m hm =>
    (cell_modifyCell_congr Cell.dirty (by exact fun _ => rfl) m).trans hm

theorem Founded.keepResult (h : g.Founded base) (result : Checked Value) :
    ((keepResult n result).run g).2.Founded base := by
  cases result with
  | error e =>
    rw [run_keepResult_error]
    exact h.of_node rfl size_modifyCell (cell_modifyCell_congr Cell.node (by exact fun _ => rfl)) fun m hm =>
      (cell_modifyCell_congr Cell.dirty (by exact fun _ => rfl) m).trans hm
  | ok v =>
    rw [run_keepResult_ok]
    refine h.of_node rfl size_modifyCell (cell_modifyCell_congr Cell.node (by exact fun _ => rfl)) fun m hm => ?_
    rw [cell_modifyCell]
    split
    · rfl
    · exact hm

theorem Founded.addCell {node : Node} (h : g.Founded base) (cache : Option Value) (hmade : node.isMade = true)
    (hnode : ∀ d ∈ node.dependencies, g.Grounded base d) : (g.addCell node cache).2.Founded base := by
  have hgrows := grows_addCell (g := g) node cache
  refine h.step rfl hgrows.size (fun m hle hlt => ?_) (fun d hd => hd.grows hgrows) fun m d hd => ?_
  · rw [Graph.node, cell_addCell]
    split
    · exact hmade
    next hm =>
      rw [size_addCell] at hlt
      exact h.made m hle (Nat.lt_of_le_of_ne (Nat.le_of_lt_succ hlt) hm)
  · rw [dependencies, Graph.node, cell_addCell] at hd
    split at hd
    · exact .inr ((hnode d hd).grows hgrows)
    · exact .inl hd

theorem Founded.addConstant (h : g.Founded base) (v : Value) : (g.addConstant v).2.Founded base :=
  h.addCell (some v) rfl fun _ hd => (List.not_mem_nil hd).elim

theorem Founded.addCalculation {operands : List NodeId} (h : g.Founded base) (operation : Operation) (offset : Nat)
    (hoperands : ∀ d ∈ operands, g.Grounded base d) : (g.addCalculation operation operands offset).2.Founded base := by
  obtain ⟨hsize, hgrows⟩ := grows_subscribeAll (g := g) operands (.node g.cells.size)
  have hsubscribed : (g.subscribeAll operands (.node g.cells.size)).2.Founded base :=
    h.of_core hgrows.records hsize (core_subscribeAll operands _)
  rw [Graph.addCalculation]
  exact hsubscribed.addCell none rfl fun d hd => (hoperands d hd).grows hgrows

/-- An expression is one of the first nodes. -/
theorem Founded.lt_of_expression {scope : RecordId} {source : Source} (h : g.Founded base) (hlt : n < g.cells.size)
    (hnode : g.node n = .expression scope source) : n < base := by
  refine Nat.lt_of_not_le fun hle => ?_
  have hmade := h.made n hle hlt
  rw [hnode] at hmade
  cases hmade

theorem Founded.installTree {scope : RecordId} {source : Source} {text : String} {root : NodeId} {old : Option Tree}
    (h : g.Founded base) (hlt : n < g.cells.size) (hnode : g.node n = .expression scope source)
    (hroot : g.Grounded base root) : ((installTree n scope text root old).run g).2.Founded base := by
  have hself := core_installTree_self scope text root old hlt
  have hsize := size_installTree g n scope text root old
  have hclean : ∀ m, (g.cell m).dirty = false →
      (((FormulaGraph.installTree n scope text root old).run g).2.cell m).dirty = false := by
    intro m hm
    by_cases hmn : m = n
    · subst hmn
      exact (congrArg (·.2.2.1) hself).trans hm
    · exact (congrArg (·.2.2.1) (core_installTree old hmn)).trans hm
  have hgrounded : ∀ d, g.Grounded base d →
      ((FormulaGraph.installTree n scope text root old).run g).2.Grounded base d := fun d hd =>
    hd.of_clean (Nat.le_of_eq hsize.symm) fun _ => hclean d
  refine h.step (records_installTree g n scope text root old) (Nat.le_of_eq hsize.symm) (fun m hle hm => ?_) hgrounded
    fun m d hd => ?_
  · have hmn : m ≠ n := fun he => Nat.not_lt.mpr hle (he ▸ h.lt_of_expression hlt hnode)
    rw [show Graph.node _ m = g.node m from congrArg (·.1) (core_installTree old hmn)]
    exact h.made m hle (hsize ▸ hm)
  · by_cases hmn : m = n
    · subst hmn
      rw [dependencies, show Graph.node _ m = _ from congrArg (·.1) hself] at hd
      rw [List.mem_singleton.mp hd]
      exact .inr (hgrounded root hroot)
    · rw [dependencies, show Graph.node _ m = g.node m from congrArg (·.1) (core_installTree old hmn)] at hd
      exact .inl hd

theorem Founded.takeBack {scope : RecordId} {text : String} {old : Tree} (h : g.Founded base) (hlt : n < g.cells.size)
    (hnode : g.node n = .expression scope (.edited text old)) :
    (g.modifyCell n fun c => { c with node := .expression scope (.built old) }).Founded base := by
  refine h.step rfl (Nat.le_of_eq size_modifyCell.symm) (fun m hle hm => ?_) (fun d hd => ?_) fun m d hd => .inl ?_
  · have hmn : m ≠ n := fun he => Nat.not_lt.mpr hle (he ▸ h.lt_of_expression hlt hnode)
    rw [Graph.node, cell_modifyCell_of_ne hmn]
    exact h.made m hle (size_modifyCell ▸ hm)
  · exact hd.of_clean (Nat.le_of_eq size_modifyCell.symm) fun _ hclean =>
      (cell_modifyCell_congr Cell.dirty (by exact fun _ => rfl) d).trans hclean
  · rwa [dependencies_setNode (by rw [dependencies, hnode]; rfl)] at hd

/-- What a formula names is a member of a record, and so one of the first nodes. -/
theorem Founded.resolve? {r : RecordId} {name : String} (h : g.Founded base) (hg : g.Accounts ext)
    (hr : 0 < (g.record r).owners) (hd : g.resolve? r name = some (.node d)) : d < base := by
  obtain ⟨s, hs, hsub⟩ := resolve?_held hg hr hd
  exact h.members hs (hsub _ (List.mem_singleton_self _))

theorem Founded.namedIn {r : RecordId} {text : String} (h : g.Founded base) (hg : g.Accounts ext)
    (hd : d ∈ g.namedIn r text) : d < base := by
  rw [Graph.namedIn] at hd
  split at hd
  next hr =>
    split at hd
    next tokens _ =>
      obtain ⟨name, -, hname⟩ := List.mem_filterMap.mp hd
      obtain ⟨member, hmember, hnode⟩ := Option.bind_eq_some_iff.mp hname
      cases member with
      | node k =>
        cases hnode
        exact h.resolve? hg (of_decide_eq_true hr) hmember
      | record | list => cases hnode
    next => cases hd
  next => cases hd

theorem Founded.inputs (h : g.Founded base) (hg : g.Accounts ext) (hd : d ∈ g.inputs n) : g.Grounded base d := by
  rw [Graph.inputs] at hd
  split at hd
  next scope source hnode =>
    cases hp : source.pending? with
    | some text =>
      rw [hp] at hd
      exact .inl (h.namedIn hg hd)
    | none =>
      rw [hp] at hd
      exact h.uses n d hd
  next => exact h.uses n d hd

theorem idle_congr (h : ∀ n < base, (g'.cell n).evaluating = (g.cell n).evaluating) : g'.idle base = g.idle base :=
  congrArg Finset.card (Finset.filter_congr fun n hn => by rw [h n (Finset.mem_range.mp hn)])

theorem Founded.idle_grows (h : g.Founded base) (hg : g.Grows g') : g'.idle base = g.idle base :=
  idle_congr fun n hn => hg.evaluating n trivial (Nat.lt_of_lt_of_le hn h.le)

/-- One of the first nodes comes to be worked out. -/
theorem Founded.idle_begin (h : g.Founded base) (hn : n < base) (hidle : (g.cell n).evaluating = false) :
    (g.modifyCell n fun c => { c with evaluating := true }).idle base + 1 = g.idle base := by
  have herase : ((Finset.range base).filter fun m =>
      ((g.modifyCell n fun c => { c with evaluating := true }).cell m).evaluating = false) =
        ((Finset.range base).filter fun m => (g.cell m).evaluating = false).erase n := by
    ext m
    rw [Finset.mem_erase, Finset.mem_filter, Finset.mem_filter]
    by_cases hmn : m = n
    · subst hmn
      simp [cell_modifyCell_self (Nat.lt_of_lt_of_le hn h.le)]
    · simp [cell_modifyCell_of_ne hmn, hmn]
  rw [idle, herase, idle]
  exact Finset.card_erase_add_one (Finset.mem_filter.mpr ⟨Finset.mem_range.mpr hn, hidle⟩)

theorem idle_begin_of_le (hn : base ≤ n) :
    (g.modifyCell n fun c => { c with evaluating := true }).idle base = g.idle base :=
  idle_congr fun m hm => by rw [cell_modifyCell_of_ne (Nat.ne_of_lt (Nat.lt_of_lt_of_le hm hn))]

theorem Founded.idle_begin_le (h : g.Founded base) (n : NodeId) :
    (g.modifyCell n fun c => { c with evaluating := true }).idle base ≤ g.idle base := by
  rcases Nat.lt_or_ge n base with hlt | hle
  · by_cases he : (g.cell n).evaluating = true
    · refine Nat.le_of_eq (idle_congr fun m _ => ?_)
      by_cases hmn : m = n
      · rw [hmn, he, cell_modifyCell_self (Nat.lt_of_lt_of_le hlt h.le)]
      · rw [cell_modifyCell_of_ne hmn]
    · have := h.idle_begin hlt (Bool.eq_false_iff.mpr he)
      omega
  · exact Nat.le_of_eq (idle_begin_of_le hle)

end Graph

/-- The same from both, with nothing founded on what has no value, and no failure that tells of the depth. -/
structure Agreeing {α : Type} (base : Nat) (result result' : Checked α × Graph) : Prop where
  same : result' = result
  founded : result.2.Founded base
  shallow (e : FormulaError) : result.1 = .error e → e.cause ≠ .depth

/-- The two agree on whatever leaves them steps enough. A node that has just been made costs one more. -/
def ReadsAlike (base : Nat) (read read' : Reader) (k : Nat) : Prop :=
  ∀ {g : Graph} {ext : List Hold} {told : List NodeId} {n : NodeId}, g.Sound ext told → g.Anchored ext n →
    g.Founded base → 2 * g.idle base < k → g.Grounded base n ∨ 2 * g.idle base + 1 < k →
      Agreeing base ((read n).run.run g) ((read' n).run.run g)

section

variable {g g' : Graph} {base k : Nat} {ext : List Hold} {told : List NodeId} {n : NodeId} {scope : RecordId}
  {source : Source} {read read' : Reader}

theorem Agreeing.ok {α : Type} {a : α} (h : g.Founded base) : Agreeing base (.ok a, g) (.ok a, g) :=
  ⟨rfl, h, fun _ he => by cases he⟩

theorem Agreeing.error {α : Type} {e : FormulaError} (h : g.Founded base) (he : e.cause ≠ .depth) :
    Agreeing base ((.error e, g) : Checked α × Graph) (.error e, g) :=
  ⟨rfl, h, fun _ he' => by
    cases he'
    exact he⟩

theorem mapM_alike (hread : Reads read) (halike : ReadsAlike base read read' k) (nodes : List NodeId)
    (h : g.Sound ext told) (hf : g.Founded base) (hk : 2 * g.idle base < k)
    (hnodes : ∀ m ∈ nodes, g.Anchored ext m ∧ g.Grounded base m) :
    Agreeing base ((nodes.mapM read).run.run g) ((nodes.mapM read').run.run g) := by
  induction nodes generalizing g with
  | nil => exact .ok hf
  | cons m nodes ih =>
    obtain ⟨hm, hgrounded⟩ := hnodes m List.mem_cons_self
    obtain ⟨hsound, hgrows, -⟩ := hread h hm
    have hfirst := halike h hm hf hk (.inl hgrounded)
    rw [List.mapM_cons, List.mapM_cons, run_bind_except, run_bind_except, hfirst.same]
    generalize (read m).run.run g = first at hsound hgrows hfirst ⊢
    obtain ⟨e | v, g₁⟩ := first
    · exact .error hfirst.founded (hfirst.shallow e rfl)
    · have hrest := ih hsound hfirst.founded (by rwa [hf.idle_grows hgrows]) fun d hd => by
        obtain ⟨hd, hgrounded⟩ := hnodes d (List.mem_cons_of_mem _ hd)
        exact ⟨hd.grows h.accounts hgrows, hgrounded.grows hgrows⟩
      dsimp only
      rw [run_bind_except, run_bind_except, hrest.same]
      generalize (nodes.mapM read).run.run g₁ = rest at hrest ⊢
      obtain ⟨e | values, g₂⟩ := rest
      · exact .error hrest.founded (hrest.shallow e rfl)
      · exact .ok hrest.founded

/-- Whoever builds a formula holds grounded nodes only. -/
def foundedContract (base : Nat) (g : Graph) (ext : List Hold) (told : List NodeId) (text : String) :
    Contract Graph NodeId RecordId where
  formula := text
  holds nodes s := g.Holding ext told nodes s ∧ s.Founded base ∧ ∀ n ∈ nodes, s.Grounded base n
  opens r := 0 < (g.record r).owners
  fails _ e := e.cause ≠ .depth

theorem graphBuilder_honours_founded (hread : Reads read) (halike : ReadsAlike base read read' k)
    (hf : g.Founded base) (hk : 2 * g.idle base + 1 < k) (text : String) :
    (graphBuilder read).Honours (graphBuilder read') (foundedContract base g ext told text) := by
  have hheld := graphBuilder_keeps hread g ext told
  have hidle : ∀ {s}, g.Grows s → s.idle base = g.idle base := hf.idle_grows
  exact
    { recount := fun hcount h => ⟨hheld.recount hcount h.1, h.2.1, fun n hn => h.2.2 n (mem_of_countP hcount hn)⟩
      literal := fun {l s} v h => by
        refine ⟨hheld.literal v h.1, h.2.1.addConstant v, fun n hn => ?_⟩
        rcases List.mem_cons.mp hn with rfl | hn
        · exact .inr ⟨Nat.lt_of_lt_of_eq (Nat.lt_succ_self _) (size_addCell _ _).symm, by
            show ((s.addCell (.constant v) (some v)).2.cell s.cells.size).dirty = false
            rw [cell_addCell, if_pos rfl]
            rfl⟩
        · exact (h.2.2 n hn).grows (grows_addCell _ _)
      calculate := fun {arguments l s operation offset _} h _ _ => by
        obtain ⟨hadded, hgrown⟩ := h.1.addCalculation operation offset
        have hfounded := h.2.1.addCalculation operation offset fun d hd => h.2.2 d (List.mem_append_left _ hd)
        have hdeep : 2 * (s.addCalculation operation arguments offset).2.idle base + 1 < k := by
          rwa [hidle (h.1.2.trans hgrown)]
        have hnew := halike hadded (.outside List.mem_cons_self) hfounded (Nat.lt_of_succ_lt hdeep) (.inr hdeep)
        obtain ⟨-, hgrows, hvalue⟩ := hread hadded (.outside List.mem_cons_self)
        have hkept := hheld.calculate operation offset h.1
        have hothers : ∀ n ∈ l, ∀ g', (s.addCalculation operation arguments offset).2.Grows g' → g'.Grounded base n :=
          fun n hn g' hg' => (h.2.2 n (List.mem_append_right _ hn)).grows (hgrown.trans hg')
        have hlive := hadded.accounts.node_live List.mem_cons_self
        rw [run_calculate] at hkept ⊢
        rw [run_calculate, hnew.same]
        refine ⟨rfl, ?_⟩
        generalize s.addCalculation operation arguments offset = added at *
        generalize (read added.1).run.run added.2 = result at hnew hgrows hvalue hkept ⊢
        obtain ⟨e | v, g'⟩ := result
        · exact ⟨⟨hkept, hnew.founded.release (by simp [Hold.isRecord]),
            fun n hn => (hothers n hn g' hgrows).grows grows_release_node⟩, hnew.shallow e rfl⟩
        · refine ⟨hkept, hnew.founded, fun n hn => ?_⟩
          rcases List.mem_cons.mp hn with rfl | hn
          · exact .inr ⟨Nat.lt_of_lt_of_le (lt_size_of_owners_pos hlive) hgrows.size, (hvalue v rfl).1⟩
          · exact hothers n hn g' hgrows
      kind := fun {a l s} hmem h => by
        have hanchored : s.Anchored (l.map .node ++ ext) a := .held hmem
        have hdeep : 2 * s.idle base < k := by
          rw [hidle h.1.2]
          exact Nat.lt_of_succ_lt hk
        have hkind := halike h.1.1 hanchored h.2.1 hdeep (.inl (h.2.2 a hmem))
        obtain ⟨-, hgrows, -⟩ := hread h.1.1 hanchored
        have hkept := hheld.kind hmem h.1
        rw [run_kind] at hkept ⊢
        rw [run_kind, hkind.same]
        generalize (read a).run.run s = result at hkind hgrows hkept ⊢
        refine ⟨rfl, ⟨hkept, hkind.founded, fun n hn => (h.2.2 n hn).grows hgrows⟩, fun e he => ?_⟩
        obtain ⟨e' | v, s'⟩ := result
        · cases he
          exact hkind.shallow _ rfl
        · cases he
      resolve := fun {r l s} name hr h => by
        obtain ⟨hresolved, hopen⟩ := hheld.resolve name hr h.1
        refine ⟨⟨hresolved, ?_⟩, hopen⟩
        rw [run_resolve]
        have hlive := h.1.2.record_live hr
        rcases hm : s.resolve? r name with _ | ⟨n | r' | items⟩
        · exact h.2
        · refine ⟨h.2.1.of_core rfl size_modifyCell core_setOwners, fun m hn => ?_⟩
          rcases List.mem_cons.mp hn with rfl | hn
          · exact .inl (h.2.1.resolve? h.1.1.accounts hlive hm)
          · exact (h.2.2 m hn).grows grows_retain_node
        · exact h.2
        · exact h.2
      discard := fun {as l s} h => by
        have hrecords := isRecord_of_mem_nodes as
        exact ⟨⟨hheld.discard h.1, h.2.1.release hrecords, fun n hn =>
          (h.2.2 n (List.mem_append_right _ hn)).grows (grows_release hrecords)⟩, fun _ he => he⟩
      same := ⟨rfl, rfl, rfl⟩
      fault := fun _ _ _ => by
        show Cause.parse _ ≠ .depth
        simp
      member := fun _ _ => by
        show Cause.value _ ≠ .depth
        simp
      nothing := fun _ _ => by
        show Cause.parse _ ≠ .depth
        simp }

theorem parse_alike (hread : Reads read) (halike : ReadsAlike base read read' k) (h : g.Sound ext told)
    (hf : g.Founded base) (hk : 2 * g.idle base + 1 < k) (hs : g.scopeIsLive scope = true) (text : String) :
    Agreeing base (((graphBuilder read).parse scope text).run g) (((graphBuilder read').parse scope text).run g) ∧
      ∀ root, (((graphBuilder read).parse scope text).run g).1 = .ok root →
        (((graphBuilder read).parse scope text).run g).2.Grounded base root := by
  have hlive : 0 < (g.record scope).owners := of_decide_eq_true hs
  have hnone : (foundedContract base g ext told text).holds [] g :=
    ⟨⟨h, .refl g⟩, hf, fun _ hn => (List.not_mem_nil hn).elim⟩
  obtain ⟨hsame, hparse⟩ := (graphBuilder_honours_founded hread halike hf hk text).parse hlive (fun e he => by
    obtain ⟨-, -, -, -, -, -, -, -, -, -, -, -, rfl⟩ := tokenize_error_iff.mp he
    exact Cause.noConfusion) hnone
  dsimp only [foundedContract] at hsame hparse
  rw [hsame]
  generalize ((graphBuilder read).parse scope text).run g = parsed at hparse ⊢
  obtain ⟨e | root, g'⟩ := parsed
  · obtain ⟨⟨-, hfounded, -⟩, raw, hraw, rfl⟩ := hparse
    refine ⟨.error hfounded ?_, fun _ he => by cases he⟩
    rw [FormulaError.cause_attach]
    exact hraw
  · obtain ⟨-, hfounded, hgrounded⟩ := hparse
    refine ⟨.ok hfounded, fun root' he => ?_⟩
    cases he
    exact hgrounded root List.mem_cons_self

theorem buildTree_alike (hread : Reads read) (halike : ReadsAlike base read read' k) (h : g.Sound ext told)
    (hf : g.Founded base) (hk : 2 * g.idle base + 1 < k) (n : NodeId) (scope : RecordId) (text : String) :
    Agreeing base ((buildTree read n scope text).run.run g) ((buildTree read' n scope text).run.run g) ∧
      ∀ root, ((buildTree read n scope text).run.run g).1 = .ok root →
        ((buildTree read n scope text).run.run g).2.Grounded base root := by
  rw [run_buildTree, run_buildTree]
  by_cases hs : g.scopeIsLive scope = true
  · obtain ⟨hparse, hroot⟩ := parse_alike hread halike h hf hk hs text
    rw [if_pos hs, if_pos hs, hparse.same]
    generalize ((graphBuilder read).parse scope text).run g = parsed at hparse hroot ⊢
    obtain ⟨e | root, g'⟩ := parsed
    · exact ⟨.error hparse.founded (hparse.shallow e rfl), fun _ he => by cases he⟩
    · dsimp only
      by_cases hd : g'.dependsOn root n = true
      · rw [if_pos hd]
        refine ⟨.error (hparse.founded.release (by simp [Hold.isRecord])) ?_, fun _ he => by cases he⟩
        rw [FormulaError.cause_attach]
        simp [cycleError]
      · rw [if_neg hd]
        refine ⟨.ok hparse.founded, fun root' he => ?_⟩
        cases he
        exact hroot root rfl
  · rw [if_neg hs, if_neg hs]
    exact ⟨.error hf (by simp [ParseFault.at]), fun _ he => by cases he⟩

theorem currentTree_alike (hread : Reads read) (halike : ReadsAlike base read read' k)
    (h : g.Working ext told n g) (hf : g.Founded base) (hk : 2 * g.idle base + 1 < k)
    (hnode : g.node n = .expression scope source) :
    Agreeing base ((currentTree read n scope source).run.run g) ((currentTree read' n scope source).run.run g) := by
  have hlt := lt_size_of_owners_pos (h.anchored.live h.sound.accounts)
  have hbuild := fun text => buildTree_alike hread halike h.sound hf hk n scope text
  have hsound := fun text => buildTree_sound hread h.sound n scope text
  rw [run_currentTree, run_currentTree]
  cases source with
  | built tree => exact .ok hf
  | unbuilt text =>
    obtain ⟨hbuilt, hroot⟩ := hbuild text
    have hgrown := hsound text
    dsimp only
    rw [hbuilt.same]
    generalize (buildTree read n scope text).run.run g = built at hbuilt hroot hgrown ⊢
    obtain ⟨e | root, g'⟩ := built
    · exact .error hbuilt.founded (hbuilt.shallow e rfl)
    · have hsame : g'.node n = _ := (hgrown.2.node n trivial hlt (.inr h.evaluating)).trans hnode
      exact .ok (hbuilt.founded.installTree (Nat.lt_of_lt_of_le hlt hgrown.2.size) hsame (hroot root rfl))
  | edited text old =>
    obtain ⟨hbuilt, hroot⟩ := hbuild text
    have hgrown := hsound text
    dsimp only
    rw [hbuilt.same]
    generalize (buildTree read n scope text).run.run g = built at hbuilt hroot hgrown ⊢
    obtain ⟨e | root, g'⟩ := built
    · have hsame : g'.node n = _ := (hgrown.2.node n trivial hlt (.inr h.evaluating)).trans hnode
      exact .error (hbuilt.founded.takeBack (Nat.lt_of_lt_of_le hlt hgrown.2.size) hsame) (hbuilt.shallow e rfl)
    · have hsame : g'.node n = _ := (hgrown.2.node n trivial hlt (.inr h.evaluating)).trans hnode
      exact .ok (hbuilt.founded.installTree (Nat.lt_of_lt_of_le hlt hgrown.2.size) hsame (hroot root rfl))

/-- An expression needs steps for what is made on the way, a calculation only for its operands. -/
theorem compute_alike (hread : Reads read) (halike : ReadsAlike base read read' k) (h : g.Working ext told n g)
    (hf : g.Founded base) (hk : 2 * g.idle base < k) (hdeep : n < base → 2 * g.idle base + 1 < k) :
    Agreeing base ((compute read n).run.run g) ((compute read' n).run.run g) := by
  have hlt := lt_size_of_owners_pos (h.anchored.live h.sound.accounts)
  rw [run_compute, run_compute]
  cases hnode : g.node n with
  | constant value | input value => exact .ok hf
  | calculation operation operands offset tickets =>
    have huses : ∀ m ∈ operands, g.Uses n m := fun m hm => by
      rw [Graph.Uses, dependencies, hnode]
      exact hm
    have hmapM := mapM_alike hread halike operands h.sound hf hk fun m hm =>
      ⟨h.anchored.dependency (by rw [hnode]; rfl) (huses m hm), hf.uses n m (huses m hm)⟩
    dsimp only
    rw [hmapM.same]
    generalize (operands.mapM read).run.run g = r at hmapM ⊢
    obtain ⟨e | values, g'⟩ := r
    · exact .error hmapM.founded (hmapM.shallow e rfl)
    · refine ⟨rfl, hmapM.founded, fun e he => ?_⟩
      dsimp only at he
      rw [applyAt] at he
      split at he
      · cases he
      · cases he
        simp [ValueFault.at]
  | expression scope source =>
    have hexpression := hdeep (hf.lt_of_expression hlt hnode)
    have hcurrent := currentTree_alike hread halike h hf hexpression hnode
    have hworking := currentTree_working hread h hnode
    dsimp only
    rw [hcurrent.same]
    generalize (currentTree read n scope source).run.run g = r at hcurrent hworking ⊢
    obtain ⟨e | tree, g'⟩ := r
    · exact .error hcurrent.founded (hcurrent.shallow e rfl)
    · obtain ⟨hworking, htree⟩ := hworking
      have hnode' := htree tree rfl
      have huses : g'.Uses n tree.root := by
        rw [Graph.Uses, dependencies, hnode']
        exact List.mem_singleton_self _
      have hidle : g'.idle base = g.idle base := idle_congr fun m hm => by
        by_cases hmn : m = n
        · rw [hmn, hworking.evaluating, h.evaluating]
        · exact hworking.grows.evaluating m hmn (Nat.lt_of_lt_of_le hm hf.le)
      have hroot := halike hworking.sound (hworking.anchored.dependency (by rw [hnode']; rfl) huses)
        hcurrent.founded (by rwa [hidle]) (.inl (hcurrent.founded.uses n _ huses))
      dsimp only
      rw [hroot.same]
      refine ⟨rfl, hroot.founded, fun e he => ?_⟩
      generalize (read tree.root).run.run g' = result at hroot he
      obtain ⟨e' | v, g''⟩ := result
      · cases he
        rw [FormulaError.cause_attach]
        exact hroot.shallow e' rfl
      · cases he

/-- Working out one of the first nodes leaves one less of them. -/
theorem evaluateNode_alike (hread : Reads read) (halike : ReadsAlike base read read' k) (h : g.Sound ext told)
    (hn : g.Anchored ext n) (hdirty : (g.cell n).dirty = true) (hf : g.Founded base)
    (hk : 2 * g.idle base < k ∨ n < base ∧ 2 * g.idle base ≤ k) :
    Agreeing base ((evaluateNode read n).run.run g) ((evaluateNode read' n).run.run g) := by
  rw [run_evaluateNode, run_evaluateNode]
  by_cases he : (g.cell n).evaluating = true
  · rw [if_pos he, if_pos he]
    exact .error hf (by nofun)
  · rw [if_neg he, if_neg he]
    have hfirst := fun hlt => hf.idle_begin (n := n) hlt (Bool.eq_false_iff.mpr he)
    have hlater : base ≤ n → _ := idle_begin_of_le (g := g)
    have hcomputed := compute_alike hread halike (working_setEvaluating h hn hdirty) (hf.setEvaluating true)
      (by
        rcases Nat.lt_or_ge n base with hlt | hle
        · have := hfirst hlt
          omega
        · have := hlater hle
          have := hk.resolve_right fun ⟨hlt, _⟩ => Nat.not_lt.mpr hle hlt
          omega) fun hlt => by
        have := hfirst hlt
        omega
    dsimp only
    rw [hcomputed.same]
    generalize (compute read n).run.run (g.modifyCell n fun c => { c with evaluating := true }) = computed
      at hcomputed ⊢
    exact ⟨rfl, hcomputed.founded.keepResult computed.1, hcomputed.shallow⟩

theorem settleAll_alike (hread : Reads read) (halike : ReadsAlike base read read' k) {nodes : List NodeId}
    (h : g.Sound ext told) (hnodes : ∀ m ∈ nodes, g.Anchored ext m ∧ g.Grounded base m) (hf : g.Founded base)
    (hk : 2 * g.idle base ≤ k) :
    (settleAll read' nodes).run g = (settleAll read nodes).run g ∧ ((settleAll read nodes).run g).2.Founded base := by
  induction nodes generalizing g with
  | nil => exact ⟨rfl, hf⟩
  | cons n nodes ih =>
    have hrest := fun d hd => hnodes d (List.mem_cons_of_mem n hd)
    rw [run_settleAll_cons, run_settleAll_cons]
    by_cases hdirty : (g.cell n).dirty = true
    · rw [if_pos hdirty, if_pos hdirty]
      obtain ⟨hn, hgrounded⟩ := hnodes n List.mem_cons_self
      obtain ⟨hsound, hgrows, -⟩ := evaluateNode_sound hread h hn hdirty
      have hfirst := evaluateNode_alike hread halike h hn hdirty hf (.inr ⟨hgrounded.lt_of_dirty hdirty, hk⟩)
      rw [hfirst.same]
      generalize (evaluateNode read n).run.run g = r at hsound hgrows hfirst ⊢
      obtain ⟨e | v, g'⟩ := r
      · exact ⟨rfl, hfirst.founded⟩
      · exact ih hsound (fun d hd => ⟨(hrest d hd).1.grows h.accounts hgrows, (hrest d hd).2.grows hgrows⟩)
          hfirst.founded (by rwa [hf.idle_grows hgrows])
    · rw [if_neg hdirty, if_neg hdirty]
      exact ih h hrest hf hk

theorem settle_alike (hread : Reads read) (halike : ReadsAlike base read read' k) (h : g.Sound ext told)
    (hn : g.Anchored ext n) (hdirty : (g.cell n).dirty = true) (hf : g.Founded base) (hk : 2 * g.idle base ≤ k) :
    (settle read' n).run g = (settle read n).run g ∧ ((settle read n).run g).2.Founded base := by
  have hstart := working_setEvaluating h hn hdirty
  have hbegun := hf.setEvaluating (n := n) true
  have hanchored := settleOrder_anchored hstart.sound.accounts hstart.anchored
  have hgrounded := mem_settleOrder (fun _ _ _ _ hd => hbegun.inputs hstart.sound.accounts hd)
    fun _ hd => hbegun.inputs (n := n) hstart.sound.accounts hd
  have hall := settleAll_alike hread halike hstart.sound (fun m hm => ⟨hanchored m hm, (hgrounded m hm).1⟩) hbegun
    (Nat.le_trans (Nat.mul_le_mul_left 2 (hf.idle_begin_le n)) hk)
  rw [run_settle, run_settle]
  dsimp only
  rw [hall.1]
  exact ⟨rfl, hall.2.setEvaluating false⟩

theorem readWith_alike (hread : Reads read) (halike : ReadsAlike base read read' k) :
    ReadsAlike base (readWith read) (readWith read') (k + 1) := by
  intro g ext told n h hn hf hk hdeep
  rw [run_readWith, run_readWith]
  by_cases hdirty : (g.cell n).dirty = true
  · rw [if_pos hdirty]
    dsimp only
    by_cases he : (g.cell n).evaluating = true
    · rw [if_pos he, if_pos he]
      exact .error hf (by nofun)
    · rw [if_neg he, if_neg he]
      obtain ⟨hsound, hgrows, hdirty'⟩ := settle_sound hread h hn hdirty (Bool.eq_false_iff.mpr he)
      obtain ⟨hsame, hfounded⟩ := settle_alike hread halike h hn hdirty hf (Nat.le_of_lt_succ hk)
      rw [hsame]
      refine evaluateNode_alike hread halike hsound (hn.grows h.accounts hgrows) hdirty' hfounded ?_
      rw [hf.idle_grows hgrows]
      rcases hdeep with hgrounded | hdeep
      · exact .inr ⟨hgrounded.lt_of_dirty hdirty, Nat.le_of_lt_succ hk⟩
      · exact .inl (Nat.lt_of_succ_lt_succ hdeep)
  · obtain ⟨v, hv⟩ := h.coherent.cached n (hn.live h.accounts) (Bool.eq_false_iff.mpr hdirty)
    rw [if_neg hdirty, hv]
    exact .ok hf

/-- What lies deeper is never asked for, by induction on the steps that are left. -/
theorem readFrom_alike (bottom : Reader) (limit : Nat) :
    ReadsAlike base (readWithin limit) (readFrom bottom limit) limit := by
  induction limit with
  | zero => exact fun _ _ _ hk _ => (Nat.not_lt_zero _ hk).elim
  | succ limit ih => exact readWith_alike (readWithin_reads limit) ih

/-- Whatever a read marks as being worked out it takes the mark off again. -/
theorem evaluating_read (h : g.Sound ext told) (hn : g.Anchored ext n) (m : NodeId) :
    ((g.read n).2.cell m).evaluating = (g.cell m).evaluating := by
  obtain ⟨-, hgrows, -⟩ := readNode_reads h hn
  rcases Nat.lt_or_ge m g.cells.size with hlt | hle
  · exact hgrows.evaluating m trivial hlt
  · have hbusy : BusyWith ((List.range g.cells.size).filter fun x => (g.cell x).evaluating) g := fun x hx =>
      List.mem_filter.mpr ⟨List.mem_range.mpr (lt_size_of_evaluating hx), hx⟩
    have hidle : ∀ s : Graph, BusyWith ((List.range g.cells.size).filter fun x => (g.cell x).evaluating) s →
        (s.cell m).evaluating = false := fun s hs => Bool.eq_false_iff.mpr fun hm =>
      Nat.not_lt.mpr hle (List.mem_range.mp (List.mem_filter.mp (hs m hm)).1)
    rw [hidle g hbusy, hidle _ (endures_busyWith.read hbusy h hn)]

/-- So many steps down are enough for a read of a graph of this size. -/
theorem read_of_depthLimit_le (h : g.Sound ext told) (hwithin : ∀ n d, g.Uses n d → d < g.cells.size)
    (hn : g.Anchored ext n) (bottom : Reader) {limit : Nat} (hlimit : g.depthLimit ≤ limit) :
    (readFrom bottom limit n).run.run g = g.read n ∧ ∀ e, (g.read n).1 = .error e → e.cause ≠ .depth := by
  obtain ⟨more, rfl⟩ := Nat.exists_eq_add_of_le hlimit
  have hidle : g.idle g.cells.size ≤ g.cells.size :=
    (Finset.card_filter_le _ _).trans_eq (Finset.card_range _)
  have halike := readFrom_alike (readFrom bottom more) g.depthLimit h hn (h.accounts.founded hwithin)
    (by rw [Graph.depthLimit]; omega) (.inr (by rw [Graph.depthLimit]; omega))
  rw [readFrom_add] at halike
  rw [Graph.read, run_readNode]
  exact ⟨halike.same, halike.shallow⟩

end

namespace Workspace

/-- Formulas that name each other in a ring, and one that names itself. None of them is built. -/
def ringSteps : List Step :=
  [.record "r" none, .expression "r" "a" "a" "b + 1", .expression "r" "b" "b" "c + d",
    .expression "r" "c" "c" "a * 2", .expression "r" "d" "d" "d"]

end Workspace

end FormulaGraph
