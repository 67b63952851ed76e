import FormulaGraph.Proofs.Undo

/-! What the saved mark says of the document. It marks a position of the history, so what it compares is the
document between batches, and the changes of an open batch are not looked at. -/

namespace FormulaGraph

variable {α D : Type}

inductive Call (α : Type) where
  | openBatch
  | closeBatch
  | abandonBatch
  | make (change : α)
  | undo
  | redo
  | markSaved
deriving Repr

theorem Editing.Levels.eq_of_getLast? {w : Editing α D} {d x : D} {changes : List α} {levels : List Nat}
    {begun : List D} (h : w.Levels d changes levels begun) (hx : begun.getLast? = some x) : x = d := by
  induction h with
  | none => cases hx
  | @level before levels begun after h ih =>
    cases h with
    | none => exact (Option.some.inj hx).symm
    | level after h => exact ih (by rwa [List.getLast?_cons_cons] at hx)

theorem Editing.Levels.eq_nil_of_begun {w : Editing α D} {d : D} {changes : List α} {levels : List Nat}
    {begun : List D} (h : w.Levels d changes levels begun) (hb : begun = []) : levels = [] := by
  cases h with
  | none => rfl
  | level => cases hb

namespace Session

variable (w : Editing α D) (s m : Session α D)

def after : Call α → Session α D
  | .openBatch => s.openBatch
  | .closeBatch => s.closeBatch w
  | .abandonBatch => s.abandonBatch w
  | .make a => s.make w a
  | .undo => (s.undo w).2
  | .redo => (s.redo w).2
  | .markSaved => s.markSaved

def run (calls : List (Call α)) : Session α D := calls.foldl (after w) s

/-- A change is made for the document as it is. -/
def Fits : Call α → Prop
  | .make a => w.Suits s.document a
  | _ => True

def FitsAll (s : Session α D) : List (Call α) → Prop
  | [] => True
  | c :: calls => s.Fits w c ∧ FitsAll (s.after w c) calls

/-- The session at the last mark among the calls, or `m` if there is none. -/
def lastMark (s m : Session α D) : List (Call α) → Session α D
  | [] => m
  | .markSaved :: calls => lastMark s.markSaved s calls
  | c :: calls => lastMark (s.after w c) m calls

/-- The document between batches: while a batch is open, the one that its outermost level began with. -/
def settled : D := s.begun.getLast?.getD s.document

/-- With the document between batches as the marked one, whether or not a batch was open at the mark. -/
def markedAt : Session α D := { s with marked := some m.settled }

variable {w : Editing α D} {s m t : Session α D} {d : D}

theorem step_iff : Step w s t ↔ ∃ c, s.Fits w c ∧ s.after w c = t := by
  constructor
  · intro h
    cases h with
    | openBatch => exact ⟨.openBatch, trivial, rfl⟩
    | closeBatch => exact ⟨.closeBatch, trivial, rfl⟩
    | abandonBatch => exact ⟨.abandonBatch, trivial, rfl⟩
    | make h => exact ⟨.make _, h, rfl⟩
    | undo => exact ⟨.undo, trivial, rfl⟩
    | redo => exact ⟨.redo, trivial, rfl⟩
    | markSaved => exact ⟨.markSaved, trivial, rfl⟩
  · rintro ⟨c, h, rfl⟩
    cases c with
    | openBatch => exact .openBatch
    | closeBatch => exact .closeBatch
    | abandonBatch => exact .abandonBatch
    | make => exact .make h
    | undo => exact .undo
    | redo => exact .redo
    | markSaved => exact .markSaved

theorem Kept.settled_eq (h : s.Kept w d) :
    s.settled = w.position d s.history.batches s.history.current := by
  rw [settled]
  cases hb : s.begun.getLast? with
  | some x => exact h.levels.eq_of_getLast? hb
  | none => exact (h.closed (h.levels.eq_nil_of_begun (List.getLast?_eq_none_iff.mp hb))).2.2

theorem Kept.document_eq_settled (h : s.Kept w d) (hs : s.history.opened.getD [] = []) :
    s.document = s.settled := by
  rw [h.settled_eq, h.document, hs, Editing.applyAll_nil]

theorem markedAt_undo : ((s.markedAt m).undo w).2 = (s.undo w).2.markedAt m := by
  simp only [undo, markedAt]
  cases s.history.undo? <;> rfl

theorem markedAt_redo : ((s.markedAt m).redo w).2 = (s.redo w).2.markedAt m := by
  simp only [redo, markedAt]
  cases s.history.redo? <;> rfl

theorem Kept.markedAt_self (h : s.Kept w d) : (s.markSaved.markedAt s).Kept w d where
  batches := h.batches
  current := h.current
  pending := h.pending
  document := h.document
  levels := h.levels
  outside := h.outside
  saved i hi := by
    cases hi
    exact ⟨h.current, fun x hx => h.settled_eq.symm.trans (Option.some.inj hx)⟩

/-- What a call keeps, with the document between batches as the marked one. -/
theorem Kept.lastMark_after {c : Call α} (hm : m.Kept w d) (hs : s.Kept w d) (h : (s.markedAt m).Kept w d)
    (hc : s.Fits w c) :
    (lastMark w s m [c]).Kept w d ∧ ((s.after w c).markedAt (lastMark w s m [c])).Kept w d := by
  cases c with
  | openBatch => exact ⟨hm, h.openBatch⟩
  | closeBatch => exact ⟨hm, h.closeBatch⟩
  | abandonBatch => exact ⟨hm, h.abandonBatch⟩
  | make => exact ⟨hm, h.make hc⟩
  | undo => exact ⟨hm, markedAt_undo ▸ h.undo⟩
  | redo => exact ⟨hm, markedAt_redo ▸ h.redo⟩
  | markSaved => exact ⟨hs, hs.markedAt_self⟩

theorem lastMark_cons (c : Call α) (calls : List (Call α)) :
    lastMark w s m (c :: calls) = lastMark w (s.after w c) (lastMark w s m [c]) calls := by
  cases c <;> rfl

theorem Kept.run {calls : List (Call α)} (hm : m.Kept w d) (hs : s.Kept w d)
    (h : (s.markedAt m).Kept w d) (hc : s.FitsAll w calls) :
    (s.run w calls).Kept w d ∧ (lastMark w s m calls).Kept w d ∧
      ((s.run w calls).markedAt (lastMark w s m calls)).Kept w d := by
  induction calls generalizing s m with
  | nil => exact ⟨hs, hm, h⟩
  | cons c calls ih =>
    obtain ⟨hfits, hall⟩ := hc
    obtain ⟨hm', h'⟩ := hm.lastMark_after hs h hfits
    rw [lastMark_cons]
    exact ih hm' ((step_iff.mpr ⟨c, hfits, rfl⟩).kept hs) h' hall

/-- Whatever was called, also while a batch was open: if the history says that it is saved, then the document
between batches is the one of the last mark. So the document itself is, with nothing pending then and now. -/
theorem settled_of_isSaved {calls : List (Call α)} (hc : (start d).FitsAll w calls)
    (hsaved : ((start d).run w calls).history.isSaved = true) :
    let s := (start d).run w calls
    let m := lastMark w (start d) (start d) calls
    s.settled = m.settled ∧
      (s.history.opened.getD [] = [] → m.history.opened.getD [] = [] → s.document = m.document) := by
  intro s m
  obtain ⟨hs, hm, h⟩ := Kept.run .start .start Kept.start hc
  have heq : s.settled = m.settled := by
    rw [hs.settled_eq]
    have hcurrent : s.history.saved = some s.history.current := by simpa [History.isSaved] using hsaved
    exact (h.saved _ hcurrent).2 _ rfl
  refine ⟨heq, fun hnow hthen => ?_⟩
  rw [hs.document_eq_settled hnow, hm.document_eq_settled hthen, heq]

/-- A mark in an open batch whose change is then taken back. -/
def markedWhileOpen : List (Call (Nat × Nat)) := [.openBatch, .make (0, 1), .markSaved, .abandonBatch]

theorem fitsAll_markedWhileOpen : (start 0).FitsAll replacing markedWhileOpen :=
  ⟨trivial, (rfl : (0 : Nat) = 0), trivial, trivial, trivial⟩

theorem settled_of_markedWhileOpen :
    (start 0).FitsAll replacing markedWhileOpen ∧
      ((start 0).run replacing markedWhileOpen).history.isSaved = true ∧
      ((start 0).run replacing markedWhileOpen).settled =
        (lastMark replacing (start 0) (start 0) markedWhileOpen).settled :=
  ⟨fitsAll_markedWhileOpen, rfl, (settled_of_isSaved fitsAll_markedWhileOpen rfl).1⟩

/-- The document was 1 at the mark and is 0 again, and still the history says that it is saved. -/
theorem document_ne_of_markedWhileOpen :
    ¬ ∀ calls : List (Call (Nat × Nat)), (start 0 : Session (Nat × Nat) Nat).FitsAll replacing calls →
      ((start 0).run replacing calls).history.isSaved = true →
      ((start 0).run replacing calls).document = (lastMark replacing (start 0) (start 0) calls).document := by
  intro h
  have h01 : 0 = 1 := h markedWhileOpen fitsAll_markedWhileOpen rfl
  cases h01

end Session

end FormulaGraph
