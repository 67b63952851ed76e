import FormulaGraph.Proofs.Changes
import Mathlib.Logic.Relation

/-! A document and its history, changed together. With no batch open the document is always in the state
of the history's position, and abandoning a level takes it back to where the level began. -/

namespace FormulaGraph

variable {α D : Type}

/-- Besides the history and the document, what later states are compared with. -/
structure Session (α D : Type) where
  history : History α := {}
  document : D
  /-- The documents that the open levels began with, the innermost level first. -/
  begun : List D := []
  /-- The history that the outermost open level began with. -/
  outside : History α := {}
  /-- The document at the last mark, if no batch was open then. -/
  marked : Option D

def Session.start (d : D) : Session α D := { document := d, marked := some d }

/-- Batch `i` leads from position `i` to the next one. -/
def Editing.position (w : Editing α D) (d : D) (batches : List (List α)) : Nat → D
  | 0 => d
  | i + 1 => w.applyAll (batches.getD i []) (w.position d batches i)

namespace Session

variable (w : Editing α D) (s : Session α D)

def openBatch : Session α D :=
  { s with
    history := s.history.openBatch
    begun := s.document :: s.begun
    outside := if s.history.isOpen then s.outside else s.history }

/-- The history moves on, and the document takes the effects. -/
def moved (r : History α × List (Effect α)) : Session α D :=
  { s with history := r.1, document := w.enactAll r.2 s.document }

def closeBatch : Session α D := { s.moved w s.history.closeBatch with begun := s.begun.tail }

def abandonBatch : Session α D := { s.moved w s.history.abandonBatch with begun := s.begun.tail }

def make (a : α) : Session α D := s.moved w (s.history.make w.merge? a)

/-- Whether it was done, and what comes of it. -/
def undo : Bool × Session α D :=
  match s.history.undo? with
  | some r => (true, s.moved w r)
  | none => (false, s)

def redo : Bool × Session α D :=
  match s.history.redo? with
  | some r => (true, s.moved w r)
  | none => (false, s)

def markSaved : Session α D :=
  { s with
    history := s.history.markSaved
    marked := if s.history.isOpen then none else some s.document }

/-- One call. Changes are made for the document as it is. -/
inductive Step (w : Editing α D) (s : Session α D) : Session α D → Prop
  | openBatch : Step w s s.openBatch
  | closeBatch : Step w s (s.closeBatch w)
  | abandonBatch : Step w s (s.abandonBatch w)
  | make {a : α} (h : w.Suits s.document a) : Step w s (s.make w a)
  | undo : Step w s (s.undo w).2
  | redo : Step w s (s.redo w).2
  | markSaved : Step w s s.markSaved

abbrev Reachable (w : Editing α D) := Relation.ReflTransGen (Step w)

end Session

/-- Each level began where the changes before it lead, and the outermost one with no changes. -/
inductive Editing.Levels (w : Editing α D) (d : D) : List α → List Nat → List D → Prop
  | none : Levels w d [] [] []
  | level {before : List α} {levels : List Nat} {begun : List D} (after : List α)
    (h : Levels w d before levels begun) :
    Levels w d (before ++ after) (before.length :: levels) (w.applyAll before d :: begun)

/-- What every call keeps. -/
structure Session.Kept (w : Editing α D) (d : D) (s : Session α D) : Prop where
  batches : w.Chain d s.history.batches.flatten
  current : s.history.current ≤ s.history.batches.length
  pending : w.Chain (w.position d s.history.batches s.history.current) (s.history.opened.getD [])
  document : s.document = w.applyAll (s.history.opened.getD [])
    (w.position d s.history.batches s.history.current)
  levels : w.Levels (w.position d s.history.batches s.history.current) (s.history.opened.getD [])
    s.history.levels s.begun
  outside : s.history.isOpen →
    s.history.batches = s.outside.batches ∧ s.history.current = s.outside.current
  saved : ∀ i, s.history.saved = some i → i ≤ s.history.batches.length ∧
    ∀ m, s.marked = some m → w.position d s.history.batches i = m

namespace Editing

variable {w : Editing α D} {d : D} {batches batches' : List (List α)} {changes : List α}
  {levels : List Nat} {begun : List D}

theorem position_eq (i : Nat) :
    w.position d batches i = w.applyAll (batches.take i).flatten d := by
  induction i with
  | zero => rfl
  | succ i ih =>
    rw [position, ih, List.take_add_one, List.flatten_append, applyAll_append, List.getD_eq_getElem?_getD]
    cases batches[i]? <;> simp

theorem position_of_take_eq {i k : Nat} (h : batches.take k = batches'.take k) (hi : i ≤ k) :
    w.position d batches i = w.position d batches' i := by
  have hmin : min i k = i := Nat.min_eq_left hi
  rw [position_eq, position_eq, ← hmin, ← List.take_take, h, List.take_take]

theorem Chain.take (h : w.Chain d batches.flatten) (i : Nat) :
    w.Chain d (batches.take i).flatten := by
  rw [← List.take_append_drop i batches, List.flatten_append, chain_append] at h
  exact h.1

theorem Chain.batch (h : w.Chain d batches.flatten) {i : Nat} {b : List α} (hb : batches[i]? = some b) :
    w.Chain (w.position d batches i) b := by
  have hn := h.take (i + 1)
  rw [List.take_add_one, hb, List.flatten_append, chain_append, ← position_eq] at hn
  simpa using hn.2

theorem position_succ {i : Nat} {b : List α} (hb : batches[i]? = some b) :
    w.position d batches (i + 1) = w.applyAll b (w.position d batches i) := by
  simp [position, List.getD_eq_getElem?_getD, hb]

theorem Levels.of_nil (h : w.Levels d changes [] begun) : changes = [] ∧ begun = [] := by
  cases h with
  | none => exact ⟨rfl, rfl⟩

theorem Levels.of_cons {n : Nat} (h : w.Levels d changes (n :: levels) begun) :
    ∃ before after begun', changes = before ++ after ∧ n = before.length ∧
      begun = w.applyAll before d :: begun' ∧ w.Levels d before levels begun' := by
  cases h with
  | level after h => exact ⟨_, after, _, rfl, rfl, rfl, h⟩

/-- A level that others are open in takes in what they leave. -/
theorem Levels.append {n : Nat} (h : w.Levels d changes (n :: levels) begun) (more : List α) :
    w.Levels d (changes ++ more) (n :: levels) begun := by
  obtain ⟨before, after, begun', rfl, rfl, rfl, hbefore⟩ := h.of_cons
  rw [List.append_assoc]
  exact .level (after ++ more) hbefore

end Editing

theorem History.isOpen_eq_false {h : History α} : h.isOpen = false ↔ h.levels = [] := by
  simp [History.isOpen]

theorem History.isOpen_eq_true {h : History α} :
    h.isOpen = true ↔ ∃ n levels, h.levels = n :: levels := by
  rw [History.isOpen]
  cases h.levels <;> simp

namespace Session

variable {w : Editing α D} {d : D} {s t : Session α D}

theorem Kept.start : (Session.start d : Session α D).Kept w d where
  batches := trivial
  current := Nat.le_refl 0
  pending := trivial
  document := rfl
  levels := .none
  outside h := nomatch h
  saved i hi := by
    cases hi
    exact ⟨Nat.le_refl 0, fun m hm => Option.some.inj hm⟩

theorem Kept.closed (h : s.Kept w d) (hs : s.history.levels = []) :
    s.history.opened.getD [] = [] ∧ s.begun = [] ∧
      s.document = w.position d s.history.batches s.history.current := by
  have hl := h.levels
  have hd := h.document
  rw [hs] at hl
  obtain ⟨hchanges, hbegun⟩ := hl.of_nil
  rw [hchanges] at hd
  exact ⟨hchanges, hbegun, hd⟩

theorem Kept.openBatch (h : s.Kept w d) : s.openBatch.Kept w d where
  batches := h.batches
  current := h.current
  pending := h.pending
  document := h.document
  levels := by
    have hl := Editing.Levels.level [] h.levels
    rw [List.append_nil, ← h.document] at hl
    exact hl
  outside _ := by
    simp only [Session.openBatch, History.openBatch]
    split
    next ho => exact h.outside ho
    next => exact ⟨rfl, rfl⟩
  saved := h.saved

theorem Kept.markSaved (h : s.Kept w d) : s.markSaved.Kept w d where
  batches := h.batches
  current := h.current
  pending := h.pending
  document := h.document
  levels := h.levels
  outside := h.outside
  saved i hi := by
    cases hi
    refine ⟨h.current, fun m hm => ?_⟩
    simp only [Session.markSaved] at hm
    split at hm
    · cases hm
    next ho =>
      cases hm
      exact (h.closed (History.isOpen_eq_false.mp (by simpa using ho))).2.2.symm

/-- A batch becomes the last one. The positions up to the current one stay what they were. -/
theorem Kept.commit (h : s.Kept w d) (hs : s.history.levels = []) {changes : List α}
    (hc : w.Chain s.document changes) :
    ({ s with
      history := (s.history.commit changes).1
      document := w.enactAll (s.history.commit changes).2 (w.applyAll changes s.document) } :
      Session α D).Kept w d := by
  obtain ⟨hopened, hbegun, hdocument⟩ := h.closed hs
  by_cases he : changes = []
  · subst he
    simpa [History.commit] using h
  · have hcommit : s.history.commit changes =
        ({ s.history with
            batches := s.history.batches.take s.history.current ++ [changes]
            saved := s.history.saved.filter (· ≤ s.history.current)
            current := s.history.current + 1 },
          (s.history.batches.drop s.history.current).flatten.map .discard) := by
      simp [History.commit, he, h.current]
    have htake : (s.history.batches.take s.history.current ++ [changes]).take s.history.current =
        s.history.batches.take s.history.current := by
      rw [List.take_append_of_le_length (by simp [h.current]), List.take_take, Nat.min_self]
    have hposition : ∀ i ≤ s.history.current,
        w.position d (s.history.batches.take s.history.current ++ [changes]) i =
          w.position d s.history.batches i :=
      fun i hi => Editing.position_of_take_eq htake hi
    have hlast : (s.history.batches.take s.history.current ++ [changes])[s.history.current]? =
        some changes := by
      rw [List.getElem?_append_right (List.length_take_le _ _)]
      simp [h.current]
    have hnext := Editing.position_succ (w := w) (d := d) hlast
    rw [hposition _ (Nat.le_refl _), ← hdocument] at hnext
    rw [hcommit, Editing.enactAll_discard]
    exact
      { batches := by
          rw [List.flatten_append, Editing.chain_append, ← Editing.position_eq, ← hdocument]
          exact ⟨h.batches.take _, by simpa using hc⟩
        current := by simp [Nat.min_eq_left h.current]
        pending := by simp [hopened, Editing.Chain]
        document := by simp [hopened, hnext]
        levels := by
          rw [hs, hopened, hbegun]
          exact .none
        outside := fun ho => by simp [History.isOpen, hs] at ho
        saved := fun i hi => by
          obtain ⟨hsaved, hle⟩ := Option.filter_eq_some_iff.mp hi
          have hle : i ≤ s.history.current := by simpa using hle
          refine ⟨by simp [h.current]; omega, fun m hm => ?_⟩
          rw [hposition i hle]
          exact (h.saved i hsaved).2 m hm }

/-- The document between batches, before what is pending. -/
theorem Kept.before (h : s.Kept w d) :
    ({ s with
      history := { s.history with levels := [], opened := none }
      document := w.position d s.history.batches s.history.current
      begun := [] } : Session α D).Kept w d where
  batches := h.batches
  current := h.current
  pending := trivial
  document := rfl
  levels := .none
  outside ho := nomatch ho
  saved := h.saved

theorem Kept.closeBatch (h : s.Kept w d) : (s.closeBatch w).Kept w d := by
  have hl := h.levels
  match hs : s.history.levels with
  | [] =>
    have hb := (h.closed hs).2.1
    simp only [Session.closeBatch, moved, History.closeBatch, hs, hb, List.tail_nil]
    exact { h with
      levels := by
        rw [← hb]
        exact h.levels }
  | [n] =>
    rw [hs] at hl
    obtain ⟨before, after, begun', -, -, hbegun, hl⟩ := hl.of_cons
    have hcommit := h.before.commit rfl h.pending
    rw [← h.document] at hcommit
    simp only [Session.closeBatch, moved, History.closeBatch, hs, hbegun, List.tail_cons, hl.of_nil.2]
    exact hcommit
  | n :: n' :: levels =>
    rw [hs] at hl
    obtain ⟨before, after, begun', hchanges, -, hbegun, hl⟩ := hl.of_cons
    simp only [Session.closeBatch, moved, History.closeBatch, hs, hbegun, List.tail_cons]
    exact { h with
      levels := by
        rw [hchanges]
        exact hl.append after
      outside := fun _ => h.outside (by simp [History.isOpen, hs]) }

/-- Taking back what came after `before` leads to where `before` leads. -/
theorem Kept.abandon_document (h : s.Kept w d) {before after : List α}
    (hchanges : s.history.opened.getD [] = before ++ after) :
    w.enactAll (after.reverse.flatMap fun a => [.revert a, .discard a]) s.document =
      w.applyAll before (w.position d s.history.batches s.history.current) := by
  have hpending := h.pending
  rw [hchanges, Editing.chain_append] at hpending
  rw [h.document, hchanges, Editing.applyAll_append]
  exact hpending.2.abandonAll

theorem Kept.abandonBatch (h : s.Kept w d) : (s.abandonBatch w).Kept w d := by
  have hl := h.levels
  match hs : s.history.levels with
  | [] =>
    have hb := (h.closed hs).2.1
    simp only [Session.abandonBatch, moved, History.abandonBatch, hs, hb, List.tail_nil]
    exact { h with
      levels := by
        rw [← hb]
        exact h.levels }
  | n :: levels =>
    rw [hs] at hl
    obtain ⟨before, after, begun', hchanges, rfl, hbegun, hl⟩ := hl.of_cons
    have hdocument := h.abandon_document hchanges
    have hopened : (if levels.isEmpty then none else s.history.opened.map (·.take before.length)).getD [] =
        before := by
      cases levels with
      | nil => exact hl.of_nil.1.symm
      | cons =>
        cases ho : s.history.opened with
        | none =>
          rw [ho] at hchanges
          simp [List.append_eq_nil_iff.mp hchanges.symm]
        | some changes =>
          rw [ho] at hchanges
          simp [show changes = before ++ after from hchanges]
    have hpending := h.pending
    rw [hchanges, Editing.chain_append] at hpending
    simp only [Session.abandonBatch, moved, History.abandonBatch, hs, hbegun, List.tail_cons, hchanges,
      List.drop_left, hdocument]
    exact { h with
      pending := by
        simp only [hopened]
        exact hpending.1
      document := by simp only [hopened]
      levels := by
        simp only [hopened]
        exact hl
      outside := fun _ => h.outside (by simp [History.isOpen, hs]) }

theorem Kept.make (h : s.Kept w d) {a : α} (ha : w.Suits s.document a) : (s.make w a).Kept w d := by
  have hl := h.levels
  match hs : s.history.levels with
  | [] =>
    have hchain : w.Chain s.document [a] := ⟨ha, trivial⟩
    have hcommit := h.commit hs hchain
    simp only [Session.make, moved, History.make, hs]
    exact hcommit
  | n :: levels =>
    rw [hs] at hl
    obtain ⟨before, after, begun', hchanges, rfl, hbegun, hl⟩ := hl.of_cons
    have hpending := h.pending
    have hd := h.document
    rw [hchanges] at hpending hd
    rw [hd] at ha
    obtain ⟨after', hrecord, hchain, hleads, heffects⟩ := hpending.record ha
    simp only [Session.make, moved, History.make, hs, hchanges, hrecord, Editing.enactAll_cons, heffects]
    exact { h with
      pending := hchain
      document := by simp only [Option.getD_some, hleads, hd, Editing.enact]
      levels := by
        rw [hbegun]
        exact .level after' hl
      outside := fun _ => h.outside (by simp [History.isOpen, hs]) }

/-- At another position with no batch open, the document of that position. -/
def atPosition (w : Editing α D) (d : D) (s : Session α D) (i : Nat) : Session α D :=
  { s with
    history := { s.history with current := i }
    document := w.position d s.history.batches i }

theorem Kept.atPosition (h : s.Kept w d) (hs : s.history.levels = []) {i : Nat}
    (hi : i ≤ s.history.batches.length) : (s.atPosition w d i).Kept w d := by
  obtain ⟨hopened, hbegun, -⟩ := h.closed hs
  exact
    { batches := h.batches
      current := hi
      pending := by simp [Session.atPosition, hopened, Editing.Chain]
      document := by simp [Session.atPosition, hopened]
      levels := by
        simp only [Session.atPosition, hs, hopened, hbegun]
        exact .none
      outside := fun ho => by simp [Session.atPosition, History.isOpen, hs] at ho
      saved := h.saved }

theorem Kept.undo_cases (h : s.Kept w d) :
    (¬ (s.history.levels = [] ∧ 0 < s.history.current) ∧ s.undo w = (false, s)) ∨
      ((s.history.levels = [] ∧ 0 < s.history.current) ∧
        s.undo w = (true, s.atPosition w d (s.history.current - 1))) := by
  by_cases hc : s.history.levels = [] ∧ 0 < s.history.current
  · refine .inr ⟨hc, ?_⟩
    obtain ⟨hs, hpos⟩ := hc
    have hlt : s.history.current - 1 < s.history.batches.length := by
      have := h.current
      omega
    have hb := List.getElem?_eq_getElem hlt
    have hd := (h.closed hs).2.2
    have hsucc := Editing.position_succ (w := w) (d := d) hb
    rw [Nat.sub_add_cancel hpos, ← hd] at hsucc
    have hundo := (h.batches.batch hb).revertAll
    rw [← hsucc, List.map_reverse] at hundo
    simp [Session.undo, History.undo?, History.isOpen, History.canUndo, hs, hpos, hb, moved, hundo,
      Session.atPosition]
  · refine .inl ⟨hc, ?_⟩
    have hrefused : (s.history.isOpen || !s.history.canUndo) = true := by
      simpa [History.isOpen, History.canUndo, Classical.or_iff_not_imp_left] using hc
    rw [Session.undo, History.undo?, if_pos hrefused]

theorem Kept.redo_cases (h : s.Kept w d) :
    (¬ (s.history.levels = [] ∧ s.history.current < s.history.batches.length) ∧
        s.redo w = (false, s)) ∨
      ((s.history.levels = [] ∧ s.history.current < s.history.batches.length) ∧
        s.redo w = (true, s.atPosition w d (s.history.current + 1))) := by
  by_cases hc : s.history.levels = [] ∧ s.history.current < s.history.batches.length
  · refine .inr ⟨hc, ?_⟩
    obtain ⟨hs, hlt⟩ := hc
    have hb := List.getElem?_eq_getElem hlt
    have hd := (h.closed hs).2.2
    have hsucc := Editing.position_succ (w := w) (d := d) hb
    rw [← hd] at hsucc
    simp [Session.redo, History.redo?, History.isOpen, History.canRedo, hs, hlt, moved,
      Editing.enactAll_apply, ← hsucc, Session.atPosition]
  · refine .inl ⟨hc, ?_⟩
    have hrefused : (s.history.isOpen || !s.history.canRedo) = true := by
      simpa [History.isOpen, History.canRedo, Classical.or_iff_not_imp_left] using hc
    rw [Session.redo, History.redo?, if_pos hrefused]

theorem Kept.undo (h : s.Kept w d) : (s.undo w).2.Kept w d := by
  rcases h.undo_cases with ⟨-, he⟩ | ⟨⟨hs, -⟩, he⟩
  · rw [he]
    exact h
  · rw [he]
    have hle := h.current
    exact h.atPosition hs (by omega)

theorem Kept.redo (h : s.Kept w d) : (s.redo w).2.Kept w d := by
  rcases h.redo_cases with ⟨-, he⟩ | ⟨⟨hs, hlt⟩, he⟩
  · rw [he]
    exact h
  · rw [he]
    exact h.atPosition hs hlt

theorem Step.kept (hst : Step w s t) (h : s.Kept w d) : t.Kept w d := by
  cases hst with
  | openBatch => exact h.openBatch
  | closeBatch => exact h.closeBatch
  | abandonBatch => exact h.abandonBatch
  | make ha => exact h.make ha
  | undo => exact h.undo
  | redo => exact h.redo
  | markSaved => exact h.markSaved

theorem Reachable.kept (hst : Reachable w (Session.start d) s) : s.Kept w d := by
  induction hst with
  | refl => exact .start
  | tail _ hstep ih => exact hstep.kept ih

/-- The history and the document agree. -/
structure Agrees (w : Editing α D) (d : D) (s : Session α D) : Prop where
  closed : s.history.isOpen = false → s.history.current ≤ s.history.batches.length ∧
    s.document = w.position d s.history.batches s.history.current
  undo_iff : (s.undo w).1 = true ↔ s.history.isOpen = false ∧ 0 < s.history.current
  undo : (s.undo w).1 = true →
    (s.undo w).2.history = { s.history with current := s.history.current - 1 } ∧
      (s.undo w).2.document = w.position d s.history.batches (s.history.current - 1)
  undo_refused : (s.undo w).1 = false → (s.undo w).2 = s
  redo_iff : (s.redo w).1 = true ↔
    s.history.isOpen = false ∧ s.history.current < s.history.batches.length
  redo : (s.redo w).1 = true →
    (s.redo w).2.history = { s.history with current := s.history.current + 1 } ∧
      (s.redo w).2.document = w.position d s.history.batches (s.history.current + 1)
  redo_refused : (s.redo w).1 = false → (s.redo w).2 = s
  /-- The document that the innermost level began with is back. -/
  abandon : s.history.isOpen = true → s.begun.head? = some (s.abandonBatch w).document
  /-- While a batch is open, the history is that of before, and with nothing in it that is so for good. -/
  batches : s.history.isOpen = true →
    s.history.batches = s.outside.batches ∧ s.history.current = s.outside.current
  abandon_batches : s.history.isOpen = true →
    (s.abandonBatch w).history.batches = s.history.batches ∧
      (s.abandonBatch w).history.current = s.history.current
  close_empty : s.history.isOpen = true → s.history.opened.getD [] = [] →
    (s.closeBatch w).history.batches = s.history.batches ∧
      (s.closeBatch w).history.current = s.history.current
  saved : s.history.isOpen = false → s.history.isSaved = true →
    ∀ m, s.marked = some m → s.document = m

theorem Kept.agrees (h : s.Kept w d) : s.Agrees w d where
  closed ho := ⟨h.current, (h.closed (History.isOpen_eq_false.mp ho)).2.2⟩
  undo_iff := by
    rw [History.isOpen_eq_false]
    rcases h.undo_cases with ⟨hc, he⟩ | ⟨hc, he⟩
    · simp only [he, hc, Bool.false_eq_true]
    · rw [he]
      exact ⟨fun _ => hc, fun _ => rfl⟩
  undo hu := by
    rcases h.undo_cases with ⟨-, he⟩ | ⟨-, he⟩
    · rw [he] at hu
      cases hu
    · rw [he]
      exact ⟨rfl, rfl⟩
  undo_refused hu := by
    rcases h.undo_cases with ⟨-, he⟩ | ⟨-, he⟩
    · rw [he]
    · rw [he] at hu
      cases hu
  redo_iff := by
    rw [History.isOpen_eq_false]
    rcases h.redo_cases with ⟨hc, he⟩ | ⟨hc, he⟩
    · simp only [he, hc, Bool.false_eq_true]
    · rw [he]
      exact ⟨fun _ => hc, fun _ => rfl⟩
  redo hr := by
    rcases h.redo_cases with ⟨-, he⟩ | ⟨-, he⟩
    · rw [he] at hr
      cases hr
    · rw [he]
      exact ⟨rfl, rfl⟩
  redo_refused hr := by
    rcases h.redo_cases with ⟨-, he⟩ | ⟨-, he⟩
    · rw [he]
    · rw [he] at hr
      cases hr
  abandon ho := by
    obtain ⟨n, levels, hs⟩ := History.isOpen_eq_true.mp ho
    have hl := h.levels
    rw [hs] at hl
    obtain ⟨before, after, begun', hchanges, rfl, hbegun, -⟩ := hl.of_cons
    simp only [Session.abandonBatch, moved, History.abandonBatch, hs, hbegun, List.head?_cons, hchanges,
      List.drop_left, h.abandon_document hchanges]
  batches ho := h.outside ho
  abandon_batches ho := by
    obtain ⟨n, levels, hs⟩ := History.isOpen_eq_true.mp ho
    simp [Session.abandonBatch, moved, History.abandonBatch, hs]
  close_empty ho he := by
    obtain ⟨n, levels, hs⟩ := History.isOpen_eq_true.mp ho
    cases levels <;> simp [Session.closeBatch, moved, History.closeBatch, History.commit, hs, he]
  saved ho hsaved m hm := by
    rw [(h.closed (History.isOpen_eq_false.mp ho)).2.2]
    exact (h.saved _ (by simpa [History.isSaved] using hsaved)).2 m hm

/-- Numbers replaced by others. Replacing twice in a row is replacing once. -/
def replacing : Editing (Nat × Nat) Nat where
  apply a _ := a.2
  revert a _ := a.1
  merge? a b := some (a.1, b.2)
  Suits d a := a.1 = d
  revert_apply h := h
  merged_suits h _ hm := by
    cases hm
    exact h
  apply_merged _ _ hm := by
    cases hm
    rfl

end Session

end FormulaGraph
