import FormulaGraph.Proofs.Enduring
import FormulaGraph.Proofs.Incremental
import FormulaGraph.Proofs.Reporting
import FormulaGraph.Proofs.Stages

/-! Where the failures that come out of a graph point. As long as no record has held a calculation that was made for
some formula, a failure points into the formula that has failed, and its span can be cut out of it. That no record
holds one now would not do: trees last longer than what their formulas were built from stays in the records. -/

namespace FormulaGraph

open FormulaGraph.Graph

def Checked.error? {α : Type} : Checked α → Option FormulaError
  | .ok _ => none
  | .error e => some e

/-- It points at a token of a formula of `F` that has failed in this way, or it has come of no token. -/
def FormulaError.Located (R : RecordId → Prop) (F : String → Prop) (g : Graph) (e : FormulaError) : Prop :=
  F e.source ∧ g.FailsAt R e.source e.cause e.offset ∨
    (e.source = "" ∨ F e.source) ∧ e.cause.Unplaced ∧ e.offset = 0

/-- The span begins and ends with characters of the formula. -/
structure FormulaError.Sliceable (e : FormulaError) : Prop where
  start : String.Pos.Raw.IsValid e.source ⟨e.offset⟩
  stop : String.Pos.Raw.IsValid e.source ⟨e.offset + e.length⟩
  le : e.offset + e.length ≤ e.source.utf8ByteSize
  nowhere : e.source = "" → e.offset = 0

theorem eq_error_of_error? {α : Type} {result : Checked α} {e : FormulaError} (h : result.error? = some e) :
    result = .error e := by
  cases result with
  | ok => cases h
  | error =>
    cases h
    rfl

theorem FormulaError.Points.sliceable {R : RecordId → Prop} {F : String → Prop} {g : Graph} {e : FormulaError}
    (h : e.Points R F g) : e.Sliceable := by
  obtain ⟨-, hstart, hstop⟩ := h.span
  have hle : e.offset + e.length ≤ e.source.utf8ByteSize := hstop.isValid.le_rawEndPos
  refine ⟨hstart.isValid, hstop.isValid, hle, fun he => ?_⟩
  rw [he] at hle
  exact Nat.eq_zero_of_le_zero (Nat.le_trans (Nat.le_add_right ..) hle)

namespace Graph

variable {R : RecordId → Prop} {F : String → Prop} {g : Graph} {ext : List Hold} {told : List NodeId} {n : NodeId}
  {r : RecordId} {text : String} {e : FormulaError}

theorem Sound.lt_size_of_held (h : g.Sound ext told) (r : RecordId) (n : NodeId) (hr : 0 < (g.record r).owners)
    (hmem : .node n ∈ (g.record r).holds) : n < g.cells.size :=
  lt_size_of_owners_pos ((Anchored.member hr hmem).live h.accounts)

theorem Sound.tracks (h : g.Sound ext told) (ha : g.Encloses R) (hg : g.Attributed R)
    (hF : ∀ {text}, g.HasFormula R text → F text) : g.Tracks R F where
  encloses := ha
  within := h.lt_size_of_held _ _
  attributed := hg
  formulas := hF

/-- Trees stay those of their formulas, whatever is done. -/
theorem outlives_attributed (R : RecordId → Prop) : Outlives (fun g => g.Encloses R) fun _ _ g => g.Attributed R where
  grows ha h hg := ha.step hg.records h.lt_size_of_held fun m => hg.frame m trivial
  wanes {_ _ g g'} h hw _ := by
    refine h.step (Nat.le_of_eq hw.size.symm) (fun m _ => ?_) fun m scope source tree hlive hm _ htree => .inl ?_
    · rw [← Node.frame_gist, hw.gist, Node.frame_gist]
    · have hgist := hw.gist m
      rw [hm] at hgist
      cases hnode : g.node m with
      | expression scope₀ source₀ =>
        rw [hnode] at hgist
        obtain ⟨rfl, hsame⟩ := Node.expression.inj hgist
        refine ⟨source₀, hw.live m hlive, rfl, ?_⟩
        rw [← source₀.tree?_gist, ← hsame, source.tree?_gist, htree]
      | constant | input | calculation =>
        rw [hnode] at hgist
        cases hgist
  leaf {_ _ g node} cache h hdependencies _ _ := by
    refine h.step (grows_addCell node cache).size (fun m hm => (grows_addCell node cache).frame m trivial hm)
      fun m scope source tree hlive hm _ htree => .inl ?_
    rw [Graph.node, cell_addCell] at hm
    rw [cell_addCell] at hlive
    split at hm
    next =>
      subst hm
      rw [Node.dependencies, htree] at hdependencies
      cases hdependencies
    next hne =>
      rw [if_neg hne] at hlive
      exact ⟨source, hlive, hm, htree⟩
  watch {k _ g} n h := by
    have halike : g.Alike (g.subscribe n (.callback k)).2 := alike_subscribe _
    refine h.step (Nat.le_of_eq halike.size.symm) (fun m _ => congrArg Node.frame (halike.node m))
      fun m scope source tree hlive hm _ htree => .inl ⟨source, ?_, halike.node m ▸ hm, htree⟩
    rwa [owners_subscribe] at hlive
  read ha hg h hn := ((readNode_reports R fun _ => True).keeps h hn (h.tracks ha hg fun _ => trivial)).attributed
  parse {_ _ g ext told r} text ha hg h hr :=
    (@parse_lasts _ [] g ext told r readNode (abides_tracks R fun _ => True) readNode_reads
      (@Reports.tracks R _ _ (readNode_reports R fun _ => True)) h hr (h.tracks ha hg fun _ => trivial) text).attributed

theorem parse_points (h : g.Sound ext told) (hg : g.Tracks R F) (hs : g.scopeIsLive r = true) (hr : R r)
    (hF : F text) (he : (g.parse r text).1 = .error e) : e.Points R F (g.parse r text).2 := by
  have hparse := parse_reports (readNode_reports R F) h hg hs hr hF
  rw [Graph.parse] at he ⊢
  generalize ((graphBuilder readNode).parse r text).run g = parsed at hparse he ⊢
  obtain ⟨e' | root, g'⟩ := parsed
  · cases he
    exact hparse
  · cases he

/-- A node that has not been made for a formula fails on account of others. -/
theorem read_points (h : g.Sound ext told) (hn : g.Anchored ext n) (hg : g.Tracks R F) (hwithin : (g.node n).Within R)
    (he : (g.read n).1 = .error e) : e.Points R F (g.read n).2 :=
  ((readNode_reports R F).fails h hn hg (.given (lt_size_of_owners_pos (hn.live h.accounts)) hwithin) he).points

/-- What a formula is built into has a value, unless the formula only names it. -/
theorem evaluateIn_points (h : g.Sound ext told) (hg : g.Tracks R F) (hs : g.scopeIsLive r = true) (hr : R r)
    (hF : F text) (he : (g.evaluateIn r text).1 = .error e) : e.Points R F (g.evaluateIn r text).2 := by
  have hlive : 0 < (g.record r).owners := of_decide_eq_true hs
  have hparse := parse_reports (readNode_reports R F) h hg hs hr hF
  have hsound := parse_sound readNode_reads h hs text
  rw [evaluateIn, Graph.parse] at he ⊢
  generalize hp : ((graphBuilder readNode).parse r text).run g = parsed at hparse hsound he ⊢
  obtain ⟨e' | root, g'⟩ := parsed
  · cases he
    exact hparse
  · obtain ⟨tokens, tree, htokens, hspells, -, hknown, hlive'⟩ := parse_built readNode_reads h hlive hp
    obtain ⟨hsound', -⟩ := hsound
    dsimp only at he ⊢
    rcases hknown root rfl with ⟨v, hv⟩ | hnamed
    · rw [Graph.read, run_readNode_of_has hv] at he
      cases he
    · refine (read_points hsound' (.outside List.mem_cons_self) hparse.1 ?_ he).retains grows_release_node.retains
      exact hnamed.within hparse.1 hsound'.accounts hlive' hr hspells fun t hmem => ⟨tokens, htokens, hmem⟩

end Graph

namespace Workspace

variable {R : RecordId → Prop} {tasks : List Task} {w : Workspace}

theorem tracks_after {k : Nat} {steps : List Step}
    (henclosed : ∀ j ≤ k, (after j (steps.map .perform) {}).2.graph.Encloses R)
    (h : after k (steps.map .perform) {} = (tasks, w)) {F : String → Prop}
    (hF : ∀ {text}, w.graph.HasFormula R text → F text) :
    w.Sound (tasks.flatMap Task.holds) (tasks.flatMap Task.told) ∧ w.graph.Tracks R F := by
  have hempty : ({} : Workspace).graph.Attributed R := fun n scope source tree hlive => by
    cases hlive
  have hattributed := outlives_after (Graph.outlives_attributed R) hempty k steps henclosed
  obtain ⟨hsound, -⟩ := sound_after (P := fun _ => True) (fun _ _ _ _ _ _ => trivial) trivial k steps
  have hnow := henclosed k (Nat.le_refl k)
  rw [h] at hattributed hsound hnow
  exact ⟨hsound, hsound.tracks hnow hattributed hF⟩

/-- As long as none of these records has held a calculation, every failure of a formula in one of them points at the
token that fails, in the formula that it is a token of, and stays there when it is put in another. -/
theorem located_of_enclosed (k : Nat) (steps : List Step)
    (henclosed : ∀ j ≤ k, (after j (steps.map .perform) {}).2.graph.Encloses R)
    (h : after k (steps.map .perform) {} = (tasks, w)) :
    (∀ r text e, R r → w.graph.scopeIsLive r = true →
      ((w.graph.parse r text).1 = .error e →
        e.Located R (fun formula => formula = text ∨ w.graph.HasFormula R formula) (w.graph.parse r text).2) ∧
      ((w.graph.evaluateIn r text).1 = .error e →
        e.Located R (fun formula => formula = text ∨ w.graph.HasFormula R formula) (w.graph.evaluateIn r text).2)) ∧
      (∀ n scope source e, w.graph.Anchored (tasks.flatMap Task.holds ++ w.holds) n →
        w.graph.node n = .expression scope source → R scope → (w.graph.read n).1 = .error e →
          e.Located R (w.graph.HasFormula R) (w.graph.read n).2) ∧
      ∀ (e : FormulaError) (text formula : String), text ≠ "" → (e.attach text).attach formula = e.attach text := by
  refine ⟨fun r text e hr hlive => ?_, fun n scope source e hn hnode hscope he => ?_, fun e text formula ht => ?_⟩
  · obtain ⟨hsound, htracks⟩ := tracks_after henclosed h (F := fun formula =>
      formula = text ∨ w.graph.HasFormula R formula) .inr
    exact ⟨fun he => (Graph.parse_points hsound htracks hlive hr (.inl rfl) he).span.1,
      fun he => (Graph.evaluateIn_points hsound htracks hlive hr (.inl rfl) he).span.1⟩
  · obtain ⟨hsound, htracks⟩ := tracks_after henclosed h id
    refine (Graph.read_points hsound hn htracks ?_ he).span.1
    rw [hnode]
    exact hscope
  · exact FormulaError.attach_attach ht e formula

/-- A formula that fails, and one that names it. -/
def unsummedSteps : List Step :=
  [.record "r" none, .expression "r" "a" "a" "\"é\" + (1 + true)", .expression "r" "b" "b" "2 * a"]

theorem located_of_unsummed :
    ∃ tasks w n e, after 6 (unsummedSteps.map .perform) {} = (tasks, w) ∧ w.handles["b"]? = some n ∧
      (∀ j ≤ 6, (after j (unsummedSteps.map .perform) {}).2.graph.Encloses fun _ => True) ∧
        (w.graph.read n).1 = .error e ∧ e.source = "\"é\" + (1 + true)" ∧ e.offset = 10 ∧
          e.Located (fun _ => True) (w.graph.HasFormula fun _ => True) (w.graph.read n).2 := by
  have henclosed : ∀ j ≤ 6, (after j (unsummedSteps.map .perform) {}).2.graph.Encloses fun _ => True := by
    decide +kernel
  have hfails : ((after 6 (unsummedSteps.map .perform) {}).2.handles["b"]?.bind fun n =>
      ((after 6 (unsummedSteps.map .perform) {}).2.graph.node n).formula?.bind fun _ =>
        ((after 6 (unsummedSteps.map .perform) {}).2.graph.read n).1.error?.map fun e => (e.source, e.offset)) =
      some ("\"é\" + (1 + true)", 10) := by
    decide +kernel
  generalize hw : after 6 (unsummedSteps.map .perform) {} = next at hfails
  obtain ⟨tasks, w⟩ := next
  obtain ⟨n, hn, hfails⟩ := Option.bind_eq_some_iff.mp hfails
  obtain ⟨formula, hformula, hfails⟩ := Option.bind_eq_some_iff.mp hfails
  obtain ⟨e, he, hplace⟩ := Option.map_eq_some_iff.mp hfails
  obtain ⟨hsource, hoffset⟩ := Prod.mk.inj hplace
  have hanchored : w.graph.Anchored (tasks.flatMap Task.holds ++ w.holds) n :=
    .outside (List.mem_append_right _ (mem_holds_of_handle hn))
  cases hnode : w.graph.node n with
  | expression scope source =>
    have herror := eq_error_of_error? he
    exact ⟨tasks, w, n, e, rfl, hn, henclosed, herror, hsource, hoffset,
      (located_of_enclosed 6 unsummedSteps henclosed hw).2.1 n scope source e hanchored hnode trivial herror⟩
  | constant | input | calculation =>
    rw [hnode] at hformula
    cases hformula

/-- A record holds a calculation of one formula, and another formula names it. -/
def sharedSteps : List Step :=
  [.record "r" none, .input "r" "x" "x" (.scalar 1), .parse "c" "r" "1 + x", .insert "r" "c" (.node "c"),
    .expression "r" "e" "e" "c", .read "e", .set "x" (.bool true)]

/-- The failure has its offset in the formula that the calculation was made for, and is put in the one that names it,
which is too short for the offset. -/
theorem source_of_shared :
    ∃ w n m e raw, after 20 (sharedSteps.map .perform) {} = ([], w) ∧ w.handles["e"]? = some n ∧
      w.handles["c"]? = some m ∧ (w.graph.read m).1 = .error raw ∧ raw.source = "" ∧ raw.offset = 2 ∧
        (w.graph.read n).1 = .error e ∧ e.message = raw.message ∧ e.source = "c" ∧ e.offset = 1 ∧ e.length = 0 := by
  have hfails : ((after 20 (sharedSteps.map .perform) {}).2.handles["e"]?.bind fun n =>
      (after 20 (sharedSteps.map .perform) {}).2.handles["c"]?.bind fun m =>
        ((after 20 (sharedSteps.map .perform) {}).2.graph.read m).1.error?.bind fun raw =>
          ((after 20 (sharedSteps.map .perform) {}).2.graph.read n).1.error?.map fun e =>
            (raw.source, raw.offset, e.message == raw.message, e.source, e.offset, e.length)) =
      some ("", 2, true, "c", 1, 0) := by
    decide +kernel
  have hdone : (after 20 (sharedSteps.map .perform) {}).1.isEmpty = true := by
    decide +kernel
  generalize after 20 (sharedSteps.map .perform) {} = next at hfails hdone
  obtain ⟨tasks, w⟩ := next
  obtain rfl : tasks = [] := List.isEmpty_iff.mp hdone
  obtain ⟨n, hn, hfails⟩ := Option.bind_eq_some_iff.mp hfails
  obtain ⟨m, hm, hfails⟩ := Option.bind_eq_some_iff.mp hfails
  obtain ⟨raw, hraw, hfails⟩ := Option.bind_eq_some_iff.mp hfails
  obtain ⟨e, he, hplaces⟩ := Option.map_eq_some_iff.mp hfails
  obtain ⟨hsource, hoffset, hmessage, hsource', hoffset', hlength⟩ := by
    simpa only [Prod.mk.injEq] using hplaces
  exact ⟨w, n, m, e, raw, rfl, hn, hm, eq_error_of_error? hraw, hsource, hoffset, eq_error_of_error? he,
    beq_iff_eq.mp hmessage, hsource', hoffset', hlength⟩

/-- As long as none of these records has held a calculation, the span of every failure of a formula in one of them can
be cut out of the formula that it is a span of. -/
theorem sliceable_of_enclosed (k : Nat) (steps : List Step)
    (henclosed : ∀ j ≤ k, (after j (steps.map .perform) {}).2.graph.Encloses R)
    (h : after k (steps.map .perform) {} = (tasks, w)) :
    (∀ r text e, R r → w.graph.scopeIsLive r = true →
      (w.graph.parse r text).1 = .error e ∨ (w.graph.evaluateIn r text).1 = .error e → e.Sliceable) ∧
      ∀ n scope source e, w.graph.Anchored (tasks.flatMap Task.holds ++ w.holds) n →
        w.graph.node n = .expression scope source → R scope → (w.graph.read n).1 = .error e → e.Sliceable := by
  obtain ⟨hsound, htracks⟩ := tracks_after henclosed h (F := fun _ => True) fun _ => trivial
  refine ⟨fun r text e hr hlive he => ?_, fun n scope source e hn hnode hscope he => ?_⟩
  · rcases he with he | he
    · exact (Graph.parse_points hsound htracks hlive hr trivial he).sliceable
    · exact (Graph.evaluateIn_points hsound htracks hlive hr trivial he).sliceable
  · refine (Graph.read_points hsound hn htracks ?_ he).sliceable
    rw [hnode]
    exact hscope

/-- An expression has its formula edited, and another record holds a calculation. -/
def accentedSteps : List Step :=
  [.record "r" none, .record "s" none, .parse "c" "s" "1 + 2", .insert "s" "c" (.node "c"),
    .expression "r" "a" "a" "1", .read "a", .setFormula "a" "\"é\" + ü"]

theorem sliceable_of_accented :
    ∃ tasks w n e, after 14 (accentedSteps.map .perform) {} = (tasks, w) ∧ w.handles["a"]? = some n ∧
      (∀ j ≤ 14, (after j (accentedSteps.map .perform) {}).2.graph.Encloses (· = 0)) ∧
        (w.graph.read n).1 = .error e ∧ e.source = "\"é\" + ü" ∧ e.offset = 7 ∧ e.length = 2 ∧ e.Sliceable := by
  have henclosed : ∀ j ≤ 14, (after j (accentedSteps.map .perform) {}).2.graph.Encloses (· = 0) := by
    decide +kernel
  have hfails : ((after 14 (accentedSteps.map .perform) {}).2.handles["a"]?.bind fun n =>
      ((after 14 (accentedSteps.map .perform) {}).2.graph.node n).formula?.bind fun _ =>
        ((after 14 (accentedSteps.map .perform) {}).2.graph.read n).1.error?.map fun e =>
          (decide (((after 14 (accentedSteps.map .perform) {}).2.graph.node n).Within (· = 0)), e.source, e.offset,
            e.length)) = some (true, "\"é\" + ü", 7, 2) := by
    decide +kernel
  generalize hw : after 14 (accentedSteps.map .perform) {} = next at hfails
  obtain ⟨tasks, w⟩ := next
  obtain ⟨n, hn, hfails⟩ := Option.bind_eq_some_iff.mp hfails
  obtain ⟨formula, hformula, hfails⟩ := Option.bind_eq_some_iff.mp hfails
  obtain ⟨e, he, hplace⟩ := Option.map_eq_some_iff.mp hfails
  obtain ⟨hwithin, hsource, hoffset, hlength⟩ := by
    simpa only [Prod.mk.injEq, decide_eq_true_eq] using hplace
  have hanchored : w.graph.Anchored (tasks.flatMap Task.holds ++ w.holds) n :=
    .outside (List.mem_append_right _ (mem_holds_of_handle hn))
  cases hnode : w.graph.node n with
  | expression scope source =>
    rw [hnode] at hwithin
    have herror := eq_error_of_error? he
    exact ⟨tasks, w, n, e, rfl, hn, henclosed, herror, hsource, hoffset, hlength,
      (sliceable_of_enclosed 14 accentedSteps henclosed hw).2 n scope source e hanchored hnode hwithin herror⟩
  | constant | input | calculation =>
    rw [hnode] at hformula
    cases hformula

end Workspace

end FormulaGraph
