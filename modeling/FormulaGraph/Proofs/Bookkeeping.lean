import FormulaGraph.Proofs.Tables
import FormulaGraph.Workspace.Change

/-! A history gives up what it keeps no longer. What a step of it keeps and gives up was there before, or came
with the step. -/

namespace FormulaGraph

/-- What the history gives up. -/
def Effect.discards {α : Type} : Effect α → List α
  | .discard change => [change]
  | .apply _ | .revert _ => []

namespace History

variable {α β : Type} {f : α → List β} {p : β → Bool} {h : History α} {merge? : α → α → Option α}

def changes (h : History α) : List α := h.batches.flatten ++ h.opened.getD []

/-- How many of what the changes hold count. -/
def weigh (f : α → List β) (p : β → Bool) (changes : List α) : Nat := (changes.flatMap f).countP p

theorem weigh_append (changes later : List α) :
    weigh f p (changes ++ later) = weigh f p changes + weigh f p later := by
  rw [weigh, List.flatMap_append, List.countP_append, weigh, weigh]

theorem weigh_reverse (changes : List α) : weigh f p changes.reverse = weigh f p changes :=
  ((List.reverse_perm changes).flatMap_right f).countP_eq p

theorem weigh_take_drop (changes : List α) (n : Nat) :
    weigh f p (changes.take n) + weigh f p (changes.drop n) = weigh f p changes := by
  rw [← weigh_append, List.take_append_drop]

/-- What is kept and what is given up together. -/
def balance (f : α → List β) (p : β → Bool) (result : History α × List (Effect α)) : Nat :=
  weigh f p result.1.changes + weigh f p (result.2.flatMap Effect.discards)

theorem discards_map_discard (changes : List α) :
    (changes.map Effect.discard).flatMap Effect.discards = changes := by
  induction changes with
  | nil => rfl
  | cons change changes ih => exact congrArg (change :: ·) ih

theorem discards_map_apply (changes : List α) : (changes.map Effect.apply).flatMap Effect.discards = [] := by
  induction changes with
  | nil => rfl
  | cons change changes ih => exact ih

theorem discards_map_revert (changes : List α) :
    (changes.map Effect.revert).flatMap Effect.discards = [] := by
  induction changes with
  | nil => rfl
  | cons change changes ih => exact ih

theorem discards_abandoned (changes : List α) :
    (changes.flatMap fun change => [Effect.revert change, .discard change]).flatMap Effect.discards =
      changes := by
  induction changes with
  | nil => rfl
  | cons change changes ih => exact congrArg (change :: ·) ih

theorem balance_openBatch (h : History α) : balance f p (h.openBatch, []) = weigh f p h.changes := rfl

theorem balance_markSaved (h : History α) : balance f p (h.markSaved, []) = weigh f p h.changes := rfl

theorem balance_commit (h : History α) (changes : List α) :
    balance f p (h.commit changes) ≤ weigh f p h.changes + weigh f p changes := by
  rw [commit]
  split
  · exact Nat.le_add_right _ _
  · have hsplit : weigh f p (h.batches.take h.current).flatten + weigh f p (h.batches.drop h.current).flatten =
        weigh f p h.batches.flatten := by
      rw [← weigh_append, ← List.flatten_append, List.take_append_drop]
    rw [balance, discards_map_discard]
    simp only [History.changes, List.flatten_append, weigh_append, List.flatten_cons, List.flatten_nil,
      List.append_nil]
    omega

theorem balance_closeBatch (h : History α) : balance f p h.closeBatch ≤ weigh f p h.changes := by
  rw [closeBatch]
  split
  · exact Nat.le_refl _
  · refine Nat.le_trans (balance_commit _ _) ?_
    simp only [changes, weigh_append]
    simp [weigh]
  · exact Nat.le_refl _

theorem balance_abandonBatch (h : History α) : balance f p h.abandonBatch ≤ weigh f p h.changes := by
  rw [abandonBatch]
  split
  · exact Nat.le_refl _
  next start levels hlevels =>
    have hsplit := weigh_take_drop (f := f) (p := p) (h.opened.getD []) start
    have hopened : weigh f p ((if levels.isEmpty then none else h.opened.map (·.take start)).getD []) ≤
        weigh f p ((h.opened.getD []).take start) := by
      cases h.opened <;> cases levels.isEmpty <;> simp [weigh]
    rw [balance, discards_abandoned, weigh_reverse]
    simp only [changes, weigh_append]
    omega

/-- A change into which another one is merged still holds the same. -/
theorem balance_record (hmerge : ∀ a b c, merge? a b = some c → f c = f a) (floor : Nat)
    (changes : List α) (change : α) :
    weigh f p (record merge? floor changes change).1 +
        weigh f p ((record merge? floor changes change).2.flatMap Effect.discards) =
      weigh f p changes + weigh f p [change] := by
  rw [record]
  split
  next last hlast =>
    split at hlast
    next =>
      obtain ⟨old, hold, hmerged⟩ := Option.bind_eq_some_iff.mp hlast
      obtain ⟨before, rfl⟩ := List.getLast?_eq_some_iff.mp hold
      have hsame : weigh f p [last] = weigh f p [old] := by
        rw [weigh, weigh, List.flatMap_singleton, List.flatMap_singleton, hmerge _ _ _ hmerged]
      rw [List.dropLast_concat, weigh_append, weigh_append, hsame]
      rfl
    next => cases hlast
  next => rw [weigh_append]; rfl

theorem balance_make (hmerge : ∀ a b c, merge? a b = some c → f c = f a) (h : History α) (change : α) :
    balance f p (h.make merge? change) ≤ weigh f p h.changes + weigh f p [change] := by
  rw [make]
  split
  · exact balance_commit h [change]
  next floor levels hlevels =>
    have hrecord := balance_record (f := f) (p := p) hmerge floor (h.opened.getD []) change
    simp only [balance, changes, weigh_append, Option.getD_some, List.flatMap_cons, Effect.discards,
      List.nil_append]
    omega

theorem balance_undo? {result : History α × List (Effect α)} (hr : h.undo? = some result) :
    balance f p result = weigh f p h.changes := by
  rw [undo?] at hr
  split at hr
  · cases hr
  · obtain ⟨changes, -, hr⟩ := Option.bind_eq_some_iff.mp hr
    cases hr
    rw [balance, discards_map_revert]
    rfl

theorem balance_redo? {result : History α × List (Effect α)} (hr : h.redo? = some result) :
    balance f p result = weigh f p h.changes := by
  rw [redo?] at hr
  split at hr
  · cases hr
  · obtain ⟨changes, -, hr⟩ := Option.bind_eq_some_iff.mp hr
    cases hr
    rw [balance, discards_map_apply]
    rfl

end History

theorem holds_zipWith {edits later : List FormulaEdit}
    (h : edits.map FormulaEdit.target = later.map FormulaEdit.target) :
    (Change.formulas (List.zipWith (fun edit next => { edit with new := next.new }) edits later)).holds =
      (Change.formulas edits).holds := by
  induction edits generalizing later with
  | nil => rfl
  | cons edit edits ih =>
    cases later with
    | nil => cases h
    | cons next later => exact congrArg (Hold.node edit.target :: ·) (ih (List.cons.inj h).2)

theorem holds_of_merge? (a b c : Change) (h : a.merge? b = some c) : c.holds = a.holds := by
  cases a with
  | formulas edits =>
    cases b with
    | formulas later =>
      rw [Change.merge?] at h
      split at h
      next he =>
        cases h
        exact holds_zipWith he
      · cases h
    | value | marker => cases h
  | value target old new =>
    cases b with
    | value target' old' new' =>
      rw [Change.merge?] at h
      split at h
      · cases h
        rfl
      · cases h
    | formulas | marker => cases h
  | marker => cases h

end FormulaGraph
