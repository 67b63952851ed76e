import FormulaGraph.Proofs.Attributing
import FormulaGraph.Proofs.Lexing

/-! Where failures point. Each is put down to a token of the formula that has failed, and once it has been put in
its formula it stays there. Tokens begin where characters do, and labels end there. -/

namespace FormulaGraph

open FormulaGraph.Graph

/-- The byte is one that a character begins with, or the end. -/
def AtBoundary (text : List Char) (offset : Nat) : Prop :=
  ∃ before after, text = before ++ after ∧ offset = utf8Length before

/-- The formula fails for this cause at this place. -/
inductive Graph.FailsAt (R : RecordId → Prop) (g : Graph) (formula : String) : Cause → Nat → Prop
  | lexed {fault : LexFault} {place : Nat}
    (h : tokenize formula = .error { cause := .lex fault, offset := place }) : FailsAt R g formula (.lex fault) place
  | parsed {fault : ParseFault} {offset : Nat} {lexeme : Lexeme} (ht : HasToken formula ⟨offset, lexeme⟩)
    (hb : fault.Blames lexeme) : FailsAt R g formula (.parse fault) offset
  /-- There is no token to put it down to. -/
  | blank (h : tokenize formula = .ok []) : FailsAt R g formula (.parse .noValue) 0
  | unknownMember {name : String} {offset : Nat} (ht : HasToken formula ⟨offset, .name name⟩) :
    FailsAt R g formula (.value (.noMember name)) offset
  /-- What the token has made for the formula has no value, with the values that its operands have. -/
  | applied {n : NodeId} {operation : Operation} {operands : List NodeId} {values : List Value} {fault : ValueFault}
    {offset : Nat} {lexeme : Lexeme} (hn : g.Calculates n operation operands offset)
    (ht : HasToken formula ⟨offset, lexeme⟩) (hm : lexeme.Makes operation)
    (hs : ∀ d ∈ operands, g.MadeFor R formula d) (hv : List.Forall₂ g.Has operands values)
    (hf : operation.apply values = .error fault) : FailsAt R g formula (.value fault) offset

/-- Failures that do not come of a token. The empty formula cannot be told from one that was never put in. -/
inductive Cause.Unplaced : Cause → Prop
  | empty : Unplaced (.parse .noValue)
  | scopeGone : Unplaced (.parse .scopeGone)
  | cycle : Unplaced .cycle
  | depth : Unplaced .depth

namespace FormulaError

/-- The failure has been put in the formula that has failed, which is one of `F`. -/
inductive Points (R : RecordId → Prop) (F : String → Prop) (g : Graph) : FormulaError → Prop
  | placed {formula : String} {cause : Cause} {offset : Nat} (hF : F formula) (h : g.FailsAt R formula cause offset) :
    Points R F g (attach formula { cause, offset })
  | nowhere {formula : String} {cause : Cause} (hF : formula = "" ∨ F formula) (h : cause.Unplaced) :
    Points R F g (attach formula { cause, offset := 0 })

/-- The failure is one of the formula and still to be put in it, or one of another formula already. -/
inductive Concerns (R : RecordId → Prop) (F : String → Prop) (g : Graph) (formula : String) : FormulaError → Prop
  | here {cause : Cause} {offset : Nat} (h : g.FailsAt R formula cause offset) :
    Concerns R F g formula { cause, offset }
  | nowhere {cause : Cause} (h : cause.Unplaced) : Concerns R F g formula { cause, offset := 0 }
  | elsewhere {e : FormulaError} (h : e.Points R F g) : Concerns R F g formula e

end FormulaError

namespace Graph

/-- What has been made is there still, and what has been worked out is known. -/
structure Retains (g g' : Graph) : Prop where
  size : g.cells.size ≤ g'.cells.size
  frame (m : NodeId) : m < g.cells.size → (g'.node m).frame = (g.node m).frame
  has {m : NodeId} {v : Value} : g.Has m v → g'.Has m v

variable {R : RecordId → Prop} {F : String → Prop} {g g' : Graph} {formula : String} {cause : Cause} {offset : Nat}
  {e : FormulaError}

theorem Grows.retains (h : g.Grows g') : g.Retains g' := ⟨h.size, fun m => h.frame m trivial, fun hm => hm.grows h⟩

theorem Retains.of_cell (hsize : g.cells.size ≤ g'.cells.size)
    (hframe : ∀ m < g.cells.size, (g'.node m).frame = (g.node m).frame)
    (hdirty : ∀ m, (g'.cell m).dirty = (g.cell m).dirty) (hcache : ∀ m, (g'.cell m).cache = (g.cell m).cache) :
    g.Retains g' :=
  ⟨hsize, hframe, fun hm => ⟨(hdirty _).trans hm.1, (hcache _).trans hm.2⟩⟩

theorem retains_setNode {n : NodeId} {node : Node} (h : node.frame = (g.node n).frame) :
    g.Retains (g.modifyCell n fun c => { c with node }) := by
  have hcache : ∀ m, ((g.modifyCell n fun c => { c with node }).cell m).cache = (g.cell m).cache :=
    cell_modifyCell_congr Cell.cache (by exact fun _ => rfl)
  refine .of_cell (Nat.le_of_eq size_modifyCell.symm) (fun m _ => ?_)
    (cell_modifyCell_congr Cell.dirty (by exact fun _ => rfl)) hcache
  rcases node_setNode g n node m with hsame | ⟨rfl, hnew⟩
  · rw [hsame]
  · rw [hnew, h]

theorem retains_keepResult_error {n : NodeId} : g.Retains ((keepResult n (.error e)).run g).2 := by
  rw [run_keepResult_error]
  refine .of_cell (Nat.le_of_eq size_modifyCell.symm) (fun m _ => congrArg Node.frame ?_)
    (cell_modifyCell_congr Cell.dirty (by exact fun _ => rfl)) ?_
  · exact cell_modifyCell_congr Cell.node (by exact fun _ => rfl) m
  · exact cell_modifyCell_congr Cell.cache (by exact fun _ => rfl)

theorem FailsAt.retains (h : g.FailsAt R formula cause offset) (hg : g.Retains g') :
    g'.FailsAt R formula cause offset := by
  cases h with
  | lexed h => exact .lexed h
  | parsed ht hb => exact .parsed ht hb
  | blank h => exact .blank h
  | unknownMember ht => exact .unknownMember ht
  | applied hn ht hm hs hv hf =>
    exact .applied (hn.step hg.size hg.frame) ht hm (fun d hd => (hs d hd).step hg.size hg.frame)
      (hv.imp fun _ _ => hg.has) hf

end Graph

section

variable {R : RecordId → Prop} {F : String → Prop} {g g' : Graph} {formula : String} {cause : Cause} {offset : Nat}
  {e : FormulaError} {text : List Char}

theorem utf8ByteSize_ofList (text : List Char) : (String.ofList text).utf8ByteSize = utf8Length text := by
  induction text with
  | nil => rfl
  | cons c text ih =>
    rw [← List.singleton_append, String.ofList_append, String.utf8ByteSize_append, ih, utf8Length_append]
    simp [utf8Length]

theorem utf8ByteSize_eq (s : String) : s.utf8ByteSize = utf8Length s.toList := by
  rw [← utf8ByteSize_ofList, String.ofList_toList]

theorem AtBoundary.isValid (h : AtBoundary formula.toList offset) : String.Pos.Raw.IsValid formula ⟨offset⟩ := by
  obtain ⟨before, after, htext, rfl⟩ := h
  refine String.Pos.Raw.isValid_iff_exists_append.mpr ⟨String.ofList before, String.ofList after, ?_, ?_⟩
  · rw [← String.ofList_append, ← htext, String.ofList_toList]
  · rw [String.rawEndPos, utf8ByteSize_ofList]

theorem HasToken.atBoundary {token : Token} (h : HasToken formula token) : AtBoundary formula.toList token.offset := by
  obtain ⟨tokens, htokens, hmem⟩ := h
  obtain ⟨last, rest, hcuts, -⟩ := tokenize_ok_iff.mp htokens
  obtain ⟨before, l, after, htext, hoffset, -⟩ := hcuts.lexeme_at token hmem
  exact ⟨before, l ++ after, htext, by rw [hoffset, Nat.zero_add]⟩

theorem Graph.FailsAt.atBoundary (h : g.FailsAt R formula cause offset) : AtBoundary formula.toList offset := by
  cases h with
  | lexed h =>
    obtain ⟨tokens, last, blanks, c, rest, place, fault, hcuts, -, -, -, hmisfit, he⟩ := tokenize_error_iff.mp h
    cases he
    obtain ⟨before, htext, hlast⟩ := hcuts.reaches
    obtain ⟨skipped, after, hrest, hplace⟩ := hmisfit.place
    refine ⟨before ++ (blanks ++ skipped), after, ?_, ?_⟩
    · rw [htext, hrest]
      simp
    · rw [hplace, hlast, utf8Length_append, utf8Length_append]
      omega
  | parsed ht | unknownMember ht | applied _ ht => exact ht.atBoundary
  | blank => exact ⟨[], formula.toList, rfl, rfl⟩

/-- The empty formula has no token to fail at. -/
theorem Graph.FailsAt.of_empty (h : g.FailsAt R "" cause offset) : cause = .parse .noValue ∧ offset = 0 := by
  have hempty : tokenize "" = .ok [] := tokenize_ok_iff.mpr ⟨0, [], .nil, nofun⟩
  have hnone : ∀ {token : Token}, ¬ HasToken "" token := fun h => by
    obtain ⟨tokens, htokens, hmem⟩ := h
    rw [hempty] at htokens
    cases htokens
    cases hmem
  cases h with
  | lexed h =>
    rw [hempty] at h
    cases h
  | parsed ht | unknownMember ht | applied _ ht => exact (hnone ht).elim
  | blank => exact ⟨rfl, rfl⟩

theorem labelLength_eq (text : List Char) :
    ∃ label after, text = label ++ after ∧ FormulaError.labelLength text = utf8Length label := by
  cases text with
  | nil => exact ⟨[], [], rfl, rfl⟩
  | cons c text =>
    refine ⟨c :: text.takeWhile isNameChar, text.dropWhile isNameChar, ?_, rfl⟩
    rw [List.cons_append, List.takeWhile_append_dropWhile]

namespace FormulaError

/-- Once a failure has been put in a formula it stays there, unless the formula is empty. -/
theorem attach_attach (h : formula ≠ "") (e : FormulaError) (text : String) :
    (e.attach formula).attach text = e.attach formula := by
  have hplaced : (e.attach formula).source.isEmpty = false := by
    rw [FormulaError.attach]
    split
    · simpa using h
    next hsource => exact Bool.eq_false_iff.mpr hsource
  rw [FormulaError.attach.eq_1 text, if_neg (Bool.eq_false_iff.mp hplaced)]

/-- What has been put in a formula has a label there. -/
theorem attach_of_atBoundary (h : AtBoundary formula.toList offset) :
    ∃ length, attach formula { cause, offset } = { cause, offset, length, source := formula } ∧
      AtBoundary formula.toList (offset + length) := by
  obtain ⟨before, after, htext, rfl⟩ := h
  obtain ⟨label, rest, rfl, hlength⟩ := labelLength_eq after
  refine ⟨utf8Length label, ?_, before ++ label, rest, by rw [htext, List.append_assoc], (utf8Length_append ..).symm⟩
  have hsize : utf8Length before ≤ formula.utf8ByteSize := by
    rw [utf8ByteSize_eq, htext, utf8Length_append]
    exact Nat.le_add_right ..
  rw [attach, if_pos (by rfl)]
  dsimp only
  rw [Nat.min_eq_left hsize, htext, dropBytes_utf8Length, hlength]

theorem points_of_unplaced (h : cause.Unplaced) : Points R F g { cause, offset := 0 } :=
  show (FormulaError.attach "" { cause, offset := 0 }).Points R F g from .nowhere (.inl rfl) h

/-- The empty formula lets go of a failure, which is one without a token then. -/
theorem Points.attach (h : e.Points R F g) {text : String} (htext : F text) : (e.attach text).Points R F g := by
  cases h with
  | @placed formula cause offset hF h =>
    by_cases hformula : formula = ""
    · subst hformula
      obtain ⟨rfl, rfl⟩ := h.of_empty
      exact .nowhere (.inr htext) .empty
    · rw [attach_attach hformula]
      exact .placed hF h
  | @nowhere formula cause hF h =>
    by_cases hformula : formula = ""
    · subst hformula
      exact .nowhere (.inr htext) h
    · rw [attach_attach hformula]
      exact .nowhere hF h

theorem Concerns.attach (h : e.Concerns R F g formula) (hF : F formula) : (e.attach formula).Points R F g := by
  cases h with
  | here h => exact .placed hF h
  | nowhere h => exact .nowhere (.inr hF) h
  | elsewhere h => exact h.attach hF

/-- What concerns every formula concerns none by its tokens. -/
theorem Concerns.points (h : e.Concerns R F g "") : e.Points R F g := by
  cases h with
  | here h =>
    obtain ⟨rfl, rfl⟩ := h.of_empty
    exact points_of_unplaced .empty
  | nowhere h => exact points_of_unplaced h
  | elsewhere h => exact h

theorem Points.retains (h : e.Points R F g) (hg : g.Retains g') : e.Points R F g' := by
  cases h with
  | placed hF h => exact .placed hF (h.retains hg)
  | nowhere hF h => exact .nowhere hF h

theorem Concerns.retains (h : e.Concerns R F g formula) (hg : g.Retains g') : e.Concerns R F g' formula := by
  cases h with
  | here h => exact .here (h.retains hg)
  | nowhere h => exact .nowhere h
  | elsewhere h => exact .elsewhere (h.retains hg)

/-- It points at the place of the failure, and its label ends with a character. -/
theorem Points.span (h : e.Points R F g) :
    (F e.source ∧ g.FailsAt R e.source e.cause e.offset ∨
        (e.source = "" ∨ F e.source) ∧ e.cause.Unplaced ∧ e.offset = 0) ∧
      AtBoundary e.source.toList e.offset ∧ AtBoundary e.source.toList (e.offset + e.length) := by
  cases h with
  | placed hF h =>
    obtain ⟨length, he, hend⟩ := attach_of_atBoundary h.atBoundary
    rw [he]
    exact ⟨.inl ⟨hF, h⟩, h.atBoundary, hend⟩
  | @nowhere formula cause hF h =>
    have hstart : AtBoundary formula.toList 0 := ⟨[], formula.toList, rfl, rfl⟩
    obtain ⟨length, he, hend⟩ := attach_of_atBoundary hstart
    rw [he]
    exact ⟨.inr ⟨hF, h, rfl⟩, hstart, hend⟩

end FormulaError

end

end FormulaGraph
