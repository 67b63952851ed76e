import FormulaGraph.Proofs.Saving

/-! Where the numbers that a history keeps point. Whatever is called, the positions stay within the batches and the
levels within the open batch, so that no call looks for what is not there. -/

namespace FormulaGraph

namespace History

variable {α : Type}

/-- What a call makes of the history, and its effects. A call that is refused has none. -/
def served (merge? : α → α → Option α) (h : History α) : Call α → History α × List (Effect α)
  | .openBatch => (h.openBatch, [])
  | .closeBatch => h.closeBatch
  | .abandonBatch => h.abandonBatch
  | .make change => h.make merge? change
  | .undo => h.undo?.getD (h, [])
  | .redo => h.redo?.getD (h, [])
  | .markSaved => (h.markSaved, [])

def run (merge? : α → α → Option α) (h : History α) (calls : List (Call α)) : History α :=
  calls.foldl (fun h call => (h.served merge? call).1) h

/-- Nothing comes of it if `n` is more than `m`. -/
def checkedSub (m n : Nat) : Option Nat := if n ≤ m then some (m - n) else none

/-- The changes before `start` and those from there on. Nothing comes of it if `start` lies beyond the end. -/
def drain? (changes : List α) (start : Nat) : Option (List α × List α) :=
  if start ≤ changes.length then some (changes.splitAt start) else none

/-- The same, but nothing comes of a call that takes too much away or looks for what is not there. -/
def served? (merge? : α → α → Option α) (h : History α) : Call α → Option (History α × List (Effect α))
  | .abandonBatch =>
    match h.levels with
    | [] => some (h, [])
    | start :: levels => do
      let changes ← h.opened
      let count ← checkedSub changes.length start
      let (before, after) ← drain? changes start
      let opened := if levels.isEmpty then none else some before
      if after.length = count then
        some ({ h with levels, opened }, after.reverse.flatMap fun change => [.revert change, .discard change])
      else none
  | .undo =>
    if h.isOpen || !h.canUndo then some (h, [])
    else do
      let current ← checkedSub h.current 1
      let changes ← h.batches[current]?
      some ({ h with current }, changes.reverse.map .revert)
  | .redo =>
    if h.isOpen || !h.canRedo then some (h, [])
    else do
      let changes ← h.batches[h.current]?
      some ({ h with current := h.current + 1 }, changes.map .apply)
  | call => some (h.served merge? call)

structure InRange (h : History α) : Prop where
  current : h.current ≤ h.batches.length
  saved (i : Nat) : h.saved = some i → i ≤ h.batches.length
  batches (changes : List α) : changes ∈ h.batches → changes ≠ []
  opened : h.opened.isSome = h.isOpen
  /-- The outermost level first. -/
  rising : h.levels.reverse.Pairwise (· ≤ ·)
  outermost (start : Nat) : h.levels.reverse.head? = some start → start = 0
  levels (start : Nat) : start ∈ h.levels → start ≤ (h.opened.getD []).length

variable {merge? : α → α → Option α} {s : History α} {changes : List α} {change : α} {start floor : Nat}
  {levels : List Nat}

/-- Merging takes the place of a change, so it leaves as many. -/
theorem length_record_le : changes.length ≤ (record merge? floor changes change).1.length := by
  rw [record]
  split
  next last hlast =>
    have hfloor : floor < changes.length := Nat.lt_of_not_le fun hle => by
      rw [if_neg (Nat.not_lt.mpr hle)] at hlast
      cases hlast
    rw [List.length_append, List.length_dropLast, List.length_singleton]
    omega
  next =>
    rw [List.length_append]
    exact Nat.le_add_right _ _

namespace InRange

theorem empty : ({} : History α).InRange where
  current := Nat.le_refl 0
  saved i hi := by
    cases hi
    exact Nat.le_refl 0
  batches _ hb := nomatch hb
  opened := rfl
  rising := .nil
  outermost _ hs := nomatch hs
  levels _ hs := nomatch hs

theorem markSaved (h : s.InRange) : s.markSaved.InRange where
  current := h.current
  saved i hi := by
    cases hi
    exact h.current
  batches := h.batches
  opened := h.opened
  rising := h.rising
  outermost := h.outermost
  levels := h.levels

/-- Without levels nothing is open. -/
theorem opened_eq_none (h : s.InRange) (hs : s.levels = []) : s.opened = none := by
  have ho := h.opened
  rw [isOpen_eq_false.mpr hs] at ho
  exact Option.isSome_eq_false_iff.mp ho |> Option.isNone_iff_eq_none.mp

theorem exists_opened (h : s.InRange) (hs : s.levels = start :: levels) :
    ∃ changes, s.opened = some changes ∧ start ≤ changes.length := by
  have ho := h.opened
  rw [isOpen_eq_true.mpr ⟨start, levels, hs⟩] at ho
  obtain ⟨changes, hc⟩ := Option.isSome_iff_exists.mp ho
  refine ⟨changes, hc, ?_⟩
  have hle := h.levels start (hs ▸ List.mem_cons_self)
  rwa [hc] at hle

theorem openBatch (h : s.InRange) : s.openBatch.InRange where
  current := h.current
  saved := h.saved
  batches := h.batches
  opened := rfl
  rising :=
    List.pairwise_reverse.mpr (List.pairwise_cons.mpr ⟨h.levels, List.pairwise_reverse.mp h.rising⟩)
  outermost start hs := by
    rw [List.head?_reverse] at hs
    cases hl : s.levels with
    | nil =>
      -- The outermost level begins with nothing open.
      simp only [History.openBatch, hl, h.opened_eq_none hl] at hs
      exact (Option.some.inj hs).symm
    | cons level levels =>
      refine h.outermost start ?_
      rw [List.head?_reverse, hl]
      rwa [History.openBatch, hl, List.getLast?_cons_cons] at hs
  levels start hs := by
    rcases List.mem_cons.mp hs with rfl | hs
    · exact Nat.le_refl _
    · exact h.levels start hs

/-- Positions beyond the current one are given up together with what is there. -/
theorem commit (h : s.InRange) (changes : List α) : (s.commit changes).1.InRange := by
  rw [History.commit]
  split
  next => exact h
  next hc =>
    have hlength : (s.batches.take s.current ++ [changes]).length = s.current + 1 := by
      rw [List.length_append, List.length_take_of_le h.current, List.length_singleton]
    exact
      { current := Nat.le_refl _
        saved := fun i hi => by
          obtain ⟨-, hle⟩ := Option.filter_eq_some_iff.mp hi
          rw [hlength]
          exact Nat.le_succ_of_le (of_decide_eq_true hle)
        batches := fun batch hb => by
          rcases List.mem_append.mp hb with hb | hb
          · exact h.batches batch (List.mem_of_mem_take hb)
          · rw [List.mem_singleton.mp hb]
            exact fun he => hc (List.isEmpty_iff.mpr he)
        opened := h.opened
        rising := h.rising
        outermost := h.outermost
        levels := h.levels }

/-- Nothing is open any more. -/
theorem closed (h : s.InRange) : ({ s with levels := [], opened := none } : History α).InRange where
  current := h.current
  saved := h.saved
  batches := h.batches
  opened := rfl
  rising := .nil
  outermost _ hs := nomatch hs
  levels _ hs := nomatch hs

/-- The innermost of several levels ends. What is left is long enough for the others. -/
theorem popLevel (h : s.InRange) {level : Nat} (hs : s.levels = start :: level :: levels)
    (hstart : start ≤ changes.length) :
    ({ s with levels := level :: levels, opened := some changes } : History α).InRange where
  current := h.current
  saved := h.saved
  batches := h.batches
  opened := rfl
  rising := by
    have hrising := List.pairwise_reverse.mp h.rising
    rw [hs] at hrising
    exact List.pairwise_reverse.mpr (List.pairwise_cons.mp hrising).2
  outermost n hn := by
    refine h.outermost n ?_
    rw [List.head?_reverse] at hn ⊢
    rwa [hs, List.getLast?_cons_cons]
  levels n hn := by
    have hrising := List.pairwise_reverse.mp h.rising
    rw [hs] at hrising
    exact Nat.le_trans ((List.pairwise_cons.mp hrising).1 n hn) hstart

theorem closeBatch (h : s.InRange) : s.closeBatch.1.InRange := by
  rw [History.closeBatch]
  split
  next => exact h
  next => exact h.closed.commit _
  next start levels hne hs =>
    cases levels with
    | nil => exact (hne rfl).elim
    | cons level levels =>
      obtain ⟨changes, hc, hle⟩ := h.exists_opened hs
      have hpopped := h.popLevel hs hle
      rwa [← hc] at hpopped

theorem abandonBatch (h : s.InRange) : s.abandonBatch.1.InRange := by
  rw [History.abandonBatch]
  split
  next => exact h
  next start levels hs =>
    obtain ⟨changes, hc, hle⟩ := h.exists_opened hs
    cases levels with
    | nil => exact h.closed
    | cons level levels =>
      have hpopped := h.popLevel hs (Nat.le_of_eq (List.length_take_of_le hle).symm)
      rw [hc]
      exact hpopped

/-- More changes are open. -/
theorem setOpened (h : s.InRange) (hs : s.levels ≠ []) (hlength : (s.opened.getD []).length ≤ changes.length) :
    ({ s with opened := some changes } : History α).InRange where
  current := h.current
  saved := h.saved
  batches := h.batches
  opened := by
    obtain ⟨start, levels, hs⟩ := List.exists_cons_of_ne_nil hs
    exact (isOpen_eq_true.mpr ⟨start, levels, hs⟩).symm
  rising := h.rising
  outermost := h.outermost
  levels start hstart := Nat.le_trans (h.levels start hstart) hlength

theorem make (h : s.InRange) (change : α) : (s.make merge? change).1.InRange := by
  rw [History.make]
  split
  next => exact h.commit [change]
  next floor levels hs => exact h.setOpened (by rw [hs]; exact List.cons_ne_nil _ _) length_record_le

theorem setCurrent (h : s.InRange) {i : Nat} (hi : i ≤ s.batches.length) :
    ({ s with current := i } : History α).InRange where
  current := hi
  saved := h.saved
  batches := h.batches
  opened := h.opened
  rising := h.rising
  outermost := h.outermost
  levels := h.levels

/-- There is a batch to undo. -/
theorem undo?_eq (h : s.InRange) (ho : (s.isOpen || !s.canUndo) = false) :
    ∃ changes, s.batches[s.current - 1]? = some changes ∧ 1 ≤ s.current ∧
      s.undo? = some ({ s with current := s.current - 1 }, changes.reverse.map .revert) := by
  have hpos : 0 < s.current := by simpa [canUndo] using (Bool.or_eq_false_iff.mp ho).2
  have hlt : s.current - 1 < s.batches.length := by
    have := h.current
    omega
  refine ⟨_, List.getElem?_eq_getElem hlt, hpos, ?_⟩
  rw [undo?, ho, List.getElem?_eq_getElem hlt]
  rfl

/-- There is a batch to redo. -/
theorem redo?_eq (ho : (s.isOpen || !s.canRedo) = false) :
    ∃ changes, s.batches[s.current]? = some changes ∧ s.current + 1 ≤ s.batches.length ∧
      s.redo? = some ({ s with current := s.current + 1 }, changes.map .apply) := by
  have hlt : s.current < s.batches.length := by simpa [canRedo] using (Bool.or_eq_false_iff.mp ho).2
  refine ⟨_, List.getElem?_eq_getElem hlt, hlt, ?_⟩
  rw [redo?, ho, List.getElem?_eq_getElem hlt]
  rfl

theorem served (h : s.InRange) (call : Call α) : (s.served merge? call).1.InRange := by
  cases call with
  | openBatch => exact h.openBatch
  | closeBatch => exact h.closeBatch
  | abandonBatch => exact h.abandonBatch
  | make change => exact h.make change
  | markSaved => exact h.markSaved
  | undo =>
    rw [History.served]
    cases ho : s.isOpen || !s.canUndo with
    | true =>
      rw [undo?, ho]
      exact h
    | false =>
      obtain ⟨changes, -, -, he⟩ := h.undo?_eq ho
      rw [he]
      exact h.setCurrent (Nat.le_trans (Nat.sub_le _ _) h.current)
  | redo =>
    rw [History.served]
    cases ho : s.isOpen || !s.canRedo with
    | true =>
      rw [redo?, ho]
      exact h
    | false =>
      obtain ⟨changes, -, hle, he⟩ := redo?_eq ho
      rw [he]
      exact h.setCurrent hle

theorem run (h : s.InRange) (calls : List (Call α)) : (s.run merge? calls).InRange := by
  induction calls generalizing s with
  | nil => exact h
  | cons call calls ih => exact ih (h.served call)

theorem abandonBatch? (h : s.InRange) :
    s.served? merge? .abandonBatch = some (s.served merge? .abandonBatch) := by
  cases hs : s.levels with
  | nil => simp only [History.served?, History.served, History.abandonBatch, hs]
  | cons start levels =>
    obtain ⟨changes, hc, hle⟩ := h.exists_opened hs
    have hcount : (changes.drop start).length = changes.length - start := List.length_drop
    simp [History.served?, History.served, History.abandonBatch, hs, hc, checkedSub, drain?, hle, hcount]

/-- No call asks for what is not there. -/
theorem served?_eq (h : s.InRange) (call : Call α) : s.served? merge? call = some (s.served merge? call) := by
  cases call with
  | openBatch => rfl
  | closeBatch => rfl
  | abandonBatch => exact h.abandonBatch?
  | make change => rfl
  | markSaved => rfl
  | undo =>
    simp only [History.served?, History.served]
    cases ho : s.isOpen || !s.canUndo with
    | true =>
      rw [undo?, ho]
      rfl
    | false =>
      obtain ⟨changes, hchanges, hpos, he⟩ := h.undo?_eq ho
      rw [he, checkedSub, if_pos hpos]
      simp [hchanges]
  | redo =>
    simp only [History.served?, History.served]
    cases ho : s.isOpen || !s.canRedo with
    | true =>
      rw [redo?, ho]
      rfl
    | false =>
      obtain ⟨changes, hchanges, -, he⟩ := redo?_eq ho
      rw [he, hchanges]
      rfl

end InRange

/-- Whatever was called, in whatever order, every position is in range, and no call that comes next takes too much
away or looks for what is not there. -/
theorem inRange_of_calls (merge? : α → α → Option α) (calls : List (Call α)) :
    (({} : History α).run merge? calls).InRange ∧
      ∀ call, (({} : History α).run merge? calls).served? merge? call =
        some ((({} : History α).run merge? calls).served merge? call) := by
  have h : (({} : History α).run merge? calls).InRange := InRange.empty.run calls
  exact ⟨h, h.served?_eq⟩

end History

end FormulaGraph
