import FormulaGraph.History

/-! What changes do to the document under a history. A change is made for one state of the document and
can be taken back from the state that it leads to. -/

namespace FormulaGraph

/-- How changes act on a document, and what they promise. -/
structure Editing (α D : Type) where
  apply : α → D → D
  revert : α → D → D
  merge? : α → α → Option α
  /-- The change was made for this state. -/
  Suits : D → α → Prop
  revert_apply {d : D} {a : α} : Suits d a → revert a (apply a d) = d
  merged_suits {d : D} {a b c : α} :
    Suits d a → Suits (apply a d) b → merge? a b = some c → Suits d c
  apply_merged {d : D} {a b c : α} :
    Suits d a → Suits (apply a d) b → merge? a b = some c → apply c d = apply b (apply a d)

namespace Editing

variable {α D : Type} (w : Editing α D) {d : D} {a : α} {xs ys : List α}

def applyAll (changes : List α) (d : D) : D := changes.foldl (fun d a => w.apply a d) d

def enact : Effect α → D → D
  | .apply a, d => w.apply a d
  | .revert a, d => w.revert a d
  | .discard _, d => d

def enactAll (effects : List (Effect α)) (d : D) : D := effects.foldl (fun d e => w.enact e d) d

/-- Each change was made for the state that those before it lead to. -/
def Chain (d : D) : List α → Prop
  | [] => True
  | a :: changes => w.Suits d a ∧ Chain (w.apply a d) changes

@[simp] theorem applyAll_nil (d : D) : w.applyAll [] d = d := rfl

@[simp] theorem applyAll_cons (a : α) (xs : List α) (d : D) :
    w.applyAll (a :: xs) d = w.applyAll xs (w.apply a d) := rfl

@[simp] theorem applyAll_append (xs ys : List α) (d : D) :
    w.applyAll (xs ++ ys) d = w.applyAll ys (w.applyAll xs d) := List.foldl_append

@[simp] theorem enactAll_nil (d : D) : w.enactAll [] d = d := rfl

@[simp] theorem enactAll_cons (e : Effect α) (effects : List (Effect α)) (d : D) :
    w.enactAll (e :: effects) d = w.enactAll effects (w.enact e d) := rfl

@[simp] theorem enactAll_append (es fs : List (Effect α)) (d : D) :
    w.enactAll (es ++ fs) d = w.enactAll fs (w.enactAll es d) := List.foldl_append

theorem enactAll_apply (xs : List α) (d : D) : w.enactAll (xs.map .apply) d = w.applyAll xs d := by
  induction xs generalizing d with
  | nil => rfl
  | cons a xs ih => exact ih (w.apply a d)

theorem enactAll_discard (xs : List α) (d : D) : w.enactAll (xs.map .discard) d = d := by
  induction xs with
  | nil => rfl
  | cons a xs ih => exact ih

theorem chain_append : w.Chain d (xs ++ ys) ↔ w.Chain d xs ∧ w.Chain (w.applyAll xs d) ys := by
  induction xs generalizing d with
  | nil => simp [Chain]
  | cons a xs ih => simp [Chain, ih, and_assoc]

variable {w}

theorem Chain.concat (h : w.Chain d xs) (ha : w.Suits (w.applyAll xs d) a) : w.Chain d (xs ++ [a]) :=
  w.chain_append.mpr ⟨h, ha, trivial⟩

theorem Chain.revertAll (h : w.Chain d xs) :
    w.enactAll (xs.reverse.map .revert) (w.applyAll xs d) = d := by
  induction xs generalizing d with
  | nil => rfl
  | cons a xs ih =>
    rw [List.reverse_cons, List.map_append, enactAll_append, applyAll_cons, ih h.2]
    exact w.revert_apply h.1

theorem Chain.abandonAll (h : w.Chain d xs) :
    w.enactAll (xs.reverse.flatMap fun a => [.revert a, .discard a]) (w.applyAll xs d) = d := by
  induction xs generalizing d with
  | nil => rfl
  | cons a xs ih =>
    rw [List.reverse_cons, List.flatMap_append, enactAll_append, applyAll_cons, ih h.2]
    exact w.revert_apply h.1

/-- Recording leads where the new change leads, and leaves alone what comes before the floor. -/
theorem Chain.record {before after : List α} (h : w.Chain d (before ++ after))
    (ha : w.Suits (w.applyAll (before ++ after) d) a) :
    ∃ after', (History.record w.merge? before.length (before ++ after) a).1 = before ++ after' ∧
      w.Chain d (before ++ after') ∧
      w.applyAll (before ++ after') d = w.apply a (w.applyAll (before ++ after) d) ∧
      ∀ x, w.enactAll (History.record w.merge? before.length (before ++ after) a).2 x = x := by
  rcases List.eq_nil_or_concat after with rfl | ⟨inner, last, rfl⟩
  · refine ⟨[a], ?_⟩
    simp only [List.append_nil] at h ha ⊢
    simp only [History.record, Nat.lt_irrefl, if_false]
    exact ⟨trivial, h.concat ha, w.applyAll_append before [a] d, fun _ => rfl⟩
  · rw [List.concat_eq_append] at *
    simp only [← List.append_assoc] at *
    have hfloor : before.length < (before ++ inner ++ [last]).length := by simp
    cases hm : w.merge? last a with
    | none =>
      refine ⟨inner ++ [last] ++ [a], ?_⟩
      simp only [History.record, hfloor, if_true, List.getLast?_concat, Option.bind_some, hm,
        ← List.append_assoc]
      exact ⟨trivial, h.concat ha, w.applyAll_append _ [a] d, fun _ => rfl⟩
    | some c =>
      refine ⟨inner ++ [c], ?_⟩
      simp only [History.record, hfloor, if_true, List.getLast?_concat, Option.bind_some, hm,
        List.dropLast_concat, ← List.append_assoc]
      obtain ⟨hfirst, hlast, -⟩ := w.chain_append.mp h
      rw [applyAll_append] at ha
      refine ⟨trivial, hfirst.concat (w.merged_suits hlast ha hm), ?_, fun _ => rfl⟩
      rw [applyAll_append _ _ [c], applyAll_append _ _ [last]]
      exact w.apply_merged hlast ha hm

end Editing

end FormulaGraph
