import FormulaGraph.Graph.Arena

/-! Listeners in their slots. A slot that is taken stays as it is until it is freed, whatever happens to
the others. -/

namespace FormulaGraph

namespace Arena

variable {α : Type} {a : Arena α} {i j : Nat} {generation generation' : UInt32} {l l' : α}

/-- The slots to be taken again are empty, and each is there once. -/
structure Ok (a : Arena α) : Prop where
  free : ∀ i ∈ a.free, ∃ s, a.slots[i]? = some s ∧ s.listener = none
  nodup : a.free.Nodup

def Holds (a : Arena α) (i : Nat) (generation : UInt32) (l : α) : Prop :=
  a.slots[i]? = some ⟨generation, some l⟩

theorem Ok.empty : ({} : Arena α).Ok := ⟨fun _ h => (List.not_mem_nil h).elim, List.nodup_nil⟩

theorem Holds.mem_listeners (h : a.Holds i generation l) : l ∈ a.listeners := by
  rw [listeners, List.mem_filterMap]
  refine ⟨⟨generation, some l⟩, ?_, rfl⟩
  rw [Array.mem_toList_iff]
  exact Array.mem_of_getElem? h

theorem mem_listeners : l ∈ a.listeners ↔ ∃ i generation, a.Holds i generation l := by
  refine ⟨fun h => ?_, fun ⟨i, generation, h⟩ => h.mem_listeners⟩
  rw [listeners, List.mem_filterMap] at h
  obtain ⟨⟨generation, listener⟩, hs, rfl⟩ := h
  obtain ⟨i, hi⟩ := Array.getElem?_of_mem (Array.mem_toList_iff.mp hs)
  exact ⟨i, generation, hi⟩

/-- What is asked of listeners has no answer twice if none is given at two places. -/
theorem nodup_filterMap_listeners {β : Type} {f : α → Option β}
    (h : ∀ i j generation generation' l l' b, a.Holds i generation l → a.Holds j generation' l' →
      f l = some b → f l' = some b → i = j) : (a.listeners.filterMap f).Nodup := by
  rw [listeners, List.filterMap_filterMap, List.Nodup, List.pairwise_filterMap, List.pairwise_iff_getElem]
  intro i j hi hj hij b hb b' hb' hne
  obtain ⟨l, hl, hf⟩ := Option.bind_eq_some_iff.mp hb
  obtain ⟨l', hl', hf'⟩ := Option.bind_eq_some_iff.mp hb'
  have hplace : ∀ i (hi : i < a.slots.toList.length) l, (a.slots.toList[i]).listener = some l →
      ∃ generation, a.Holds i generation l := fun i hi l hl => by
    refine ⟨(a.slots.toList[i]).generation, ?_⟩
    rw [Holds, ← hl]
    simp only [Array.length_toList] at hi
    simp [hi]
  obtain ⟨generation, hholds⟩ := hplace i hi l hl
  obtain ⟨generation', hholds'⟩ := hplace j hj l' hl'
  exact Nat.ne_of_lt hij (h i j generation generation' l l' b hholds hholds' hf (hne ▸ hf'))

/-- The slot taken was empty, and the others are as before. -/
theorem Ok.insert (h : a.Ok) (l : α) :
    (a.insert l).2.Ok ∧ (a.insert l).2.Holds (a.insert l).1.1 (a.insert l).1.2 l ∧
      (∀ generation' l', ¬ a.Holds (a.insert l).1.1 generation' l') ∧
      ∀ j generation' l', a.Holds j generation' l' → (a.insert l).2.Holds j generation' l' := by
  cases hf : a.free with
  | nil =>
    have he : a.insert l = ((a.slots.size, 0), { a with slots := a.slots.push ⟨0, some l⟩ }) := by
      simp [Arena.insert, hf]
    rw [he]
    refine ⟨⟨fun i hi => ?_, h.nodup⟩, ?_, fun generation' l' hl' => ?_, fun j generation' l' hl' => ?_⟩
    · rw [hf] at hi
      exact (List.not_mem_nil hi).elim
    · simp [Holds]
    · simp [Holds] at hl'
    · have hlt := (Array.getElem?_eq_some_iff.mp hl').1
      rw [Holds, Array.getElem?_push_lt hlt]
      exact (Array.getElem?_eq_some_iff.mp hl').2 ▸ rfl
  | cons index free =>
    obtain ⟨s, hs, hnone⟩ := h.free index (by simp [hf])
    have hlt := (Array.getElem?_eq_some_iff.mp hs).1
    have he : a.insert l =
        ((index, s.generation), ⟨a.slots.setIfInBounds index ⟨s.generation, some l⟩, free⟩) := by
      simp [Arena.insert, hf, hs]
    have hn := h.nodup
    rw [hf, List.nodup_cons] at hn
    rw [he]
    refine ⟨⟨fun i hi => ?_, hn.2⟩, ?_, fun generation' l' hl' => ?_, fun j generation' l' hl' => ?_⟩
    · have hne : index ≠ i := fun h' => hn.1 (h' ▸ hi)
      obtain ⟨t, ht, htnone⟩ := h.free i (by simp [hf, hi])
      exact ⟨t, by simpa [Array.getElem?_setIfInBounds, hne] using ht, htnone⟩
    · simp [Holds, hlt]
    · rw [Holds, hs] at hl'
      cases hl'
      cases hnone
    · have hne : index ≠ j := by
        rintro rfl
        rw [Holds, hs] at hl'
        cases hl'
        cases hnone
      rw [Holds, Array.getElem?_setIfInBounds, if_neg hne]
      exact hl'

theorem Ok.remove (h : a.Ok) (hl : a.Holds i generation l) :
    (a.remove i generation).Ok ∧
      ∀ j generation' l', j ≠ i → a.Holds j generation' l' →
        (a.remove i generation).Holds j generation' l' := by
  have hs : a.slots[i]? = some ⟨generation, some l⟩ := hl
  have hlt := (Array.getElem?_eq_some_iff.mp hs).1
  have he : a.remove i generation =
      ⟨a.slots.setIfInBounds i ⟨generation + 1, none⟩, i :: a.free⟩ := by
    simp [Arena.remove, hs]
  have hi : i ∉ a.free := by
    intro hmem
    obtain ⟨s, hs', hnone⟩ := h.free i hmem
    rw [hs] at hs'
    cases hs'
    cases hnone
  rw [he]
  refine ⟨⟨fun j hj => ?_, List.nodup_cons.mpr ⟨hi, h.nodup⟩⟩, fun j generation' l' hne hl' => ?_⟩
  · by_cases hij : i = j
    · exact ⟨⟨generation + 1, none⟩, by simp [hij, hij ▸ hlt], rfl⟩
    · obtain ⟨s, hs', hnone⟩ := h.free j ((List.mem_cons.mp hj).resolve_left (Ne.symm hij))
      exact ⟨s, by simpa [Array.getElem?_setIfInBounds, hij] using hs', hnone⟩
  · rw [Holds, Array.getElem?_setIfInBounds, if_neg (Ne.symm hne)]
    exact hl'

/-- Nobody comes but the one that a place was asked for. -/
theorem holds_of_insert (h : (a.insert l).2.Holds j generation' l') :
    a.Holds j generation' l' ∨ (j, generation') = (a.insert l).1 ∧ l' = l := by
  rw [Arena.insert] at h ⊢
  split at h
  · rw [Holds, Array.getElem?_setIfInBounds] at h
    split at h
    next index free hf hj =>
      split at h
      · cases h
        exact .inr ⟨by rw [hj], rfl⟩
      · cases h
    · exact .inl h
  · rw [Holds, Array.getElem?_push] at h
    split at h
    next hj =>
      cases h
      exact .inr ⟨by rw [hj], rfl⟩
    · exact .inl h

/-- Nobody comes, and whoever had the place is gone. -/
theorem holds_of_remove (h : (a.remove i generation).Holds j generation' l') :
    a.Holds j generation' l' ∧ ¬ (j = i ∧ generation' = generation) := by
  rw [Arena.remove] at h
  split at h
  next current l hi =>
    split at h
    · rw [Holds, Array.getElem?_setIfInBounds] at h
      split at h
      · split at h <;> cases h
      next hji => exact ⟨h, fun he => hji he.1.symm⟩
    next hne =>
      refine ⟨h, ?_⟩
      rintro ⟨rfl, rfl⟩
      rw [Holds, hi] at h
      cases h
      exact hne rfl
  next hi =>
    refine ⟨h, ?_⟩
    rintro ⟨rfl, rfl⟩
    exact hi _ _ h

end Arena

end FormulaGraph
