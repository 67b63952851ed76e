import FormulaGraph.Proofs.Slots
import FormulaGraph.Workspace.Answer
import Mathlib.Algebra.Group.Nat.Defs
import Mathlib.Data.List.Nodup
import Mathlib.Data.List.Perm.Basic

/-! Registrations in an arena. A registration is outstanding until its pair of slot and generation is given back, and
the arena holds the outstanding ones and no others. A slot counts in its generation how many of its registrations have
ended, so that the pair of one that has ended comes up again only after 2 ^ 32 of them. -/

namespace FormulaGraph

namespace Arena

variable {α : Type}

/-- A listener with the pair that was handed out for it. -/
structure Registration (α : Type) where
  slot : Nat
  generation : UInt32
  listener : α
deriving DecidableEq

def Registration.isAt (r : Registration α) (slot : Nat) (generation : UInt32) : Bool :=
  r.slot == slot && r.generation == generation

inductive Call (α : Type) where
  | insert (listener : α)
  | remove (slot : Nat) (generation : UInt32)

/-- An arena, and what has been registered with it. -/
structure Ledger (α : Type) where
  arena : Arena α := {}
  outstanding : List (Registration α) := []
  ended : List (Registration α) := []

/-- A registration ends when its pair is given back. -/
def Ledger.serve (s : Ledger α) : Call α → Ledger α
  | .insert listener =>
    let ((slot, generation), arena) := s.arena.insert listener
    { s with arena, outstanding := ⟨slot, generation, listener⟩ :: s.outstanding }
  | .remove slot generation =>
    { arena := s.arena.remove slot generation
      outstanding := s.outstanding.filter (!·.isAt slot generation)
      ended := s.outstanding.filter (·.isAt slot generation) ++ s.ended }

def Ledger.serveAll (s : Ledger α) (calls : List (Call α)) : Ledger α := calls.foldl Ledger.serve s

/-- How many registrations of the slot have ended. -/
def Ledger.endings (s : Ledger α) (i : Nat) : Nat := s.ended.countP (·.slot == i)

/-- The registrations that an arena holds, in the order of their slots. -/
def registrationsFrom (i : Nat) : List (Slot α) → List (Registration α)
  | [] => []
  | ⟨generation, some listener⟩ :: slots => ⟨i, generation, listener⟩ :: registrationsFrom (i + 1) slots
  | ⟨_, none⟩ :: slots => registrationsFrom (i + 1) slots

def registrations (a : Arena α) : List (Registration α) := registrationsFrom 0 a.slots.toList

/-- How many listeners pass, slot by slot. -/
def count (a : Arena α) (p : α → Bool) : Nat := a.slots.toList.countP (·.listener.any p)

variable {a : Arena α} {i j : Nat} {generation generation' : UInt32} {l : α} {r : Registration α}
  {slots : List (Slot α)} {s : Ledger α}

theorem Registration.isAt_iff : r.isAt i generation = true ↔ r.slot = i ∧ r.generation = generation := by
  simp [isAt]

/-! What an arena holds. -/

theorem mem_registrationsFrom :
    r ∈ registrationsFrom i slots ↔ ∃ j, slots[j]? = some ⟨r.generation, some r.listener⟩ ∧ r.slot = i + j := by
  induction slots generalizing i with
  | nil => simp [registrationsFrom]
  | cons slot slots ih =>
    obtain ⟨generation, listener⟩ := slot
    have hlater : r ∈ registrationsFrom (i + 1) slots ↔
        ∃ j, slots[j]? = some ⟨r.generation, some r.listener⟩ ∧ r.slot = i + (j + 1) := by
      simp only [ih, Nat.add_assoc, Nat.add_comm 1]
    cases listener with
    | none =>
      rw [registrationsFrom, hlater]
      refine ⟨fun ⟨j, hj⟩ => ⟨j + 1, hj⟩, fun ⟨j, hj, hslot⟩ => ?_⟩
      cases j with
      | zero => simp at hj
      | succ j => exact ⟨j, hj, hslot⟩
    | some l =>
      rw [registrationsFrom, List.mem_cons, hlater]
      refine ⟨?_, fun ⟨j, hj, hslot⟩ => ?_⟩
      · rintro (rfl | ⟨j, hj⟩)
        · exact ⟨0, rfl, rfl⟩
        · exact ⟨j + 1, hj⟩
      · cases j with
        | zero =>
          obtain ⟨slot, generation, listener⟩ := r
          simp only [List.getElem?_cons_zero, Option.some.injEq, Slot.mk.injEq] at hj
          obtain ⟨rfl, rfl⟩ := hj
          exact .inl (by simpa using hslot)
        | succ j => exact .inr ⟨j, hj, hslot⟩

theorem mem_registrations : r ∈ a.registrations ↔ a.Holds r.slot r.generation r.listener := by
  simp [registrations, mem_registrationsFrom, Holds]

theorem pairwise_registrationsFrom : (registrationsFrom i slots).Pairwise (·.slot < ·.slot) := by
  induction slots generalizing i with
  | nil => exact .nil
  | cons slot slots ih =>
    obtain ⟨generation, _ | l⟩ := slot
    · exact ih
    · refine List.pairwise_cons.mpr ⟨fun r hr => ?_, ih⟩
      obtain ⟨j, -, hslot⟩ := mem_registrationsFrom.mp hr
      simp only [hslot]
      omega

theorem pairwise_registrations (a : Arena α) : a.registrations.Pairwise (·.slot < ·.slot) :=
  pairwise_registrationsFrom

theorem map_listener_registrationsFrom :
    (registrationsFrom i slots).map (·.listener) = slots.filterMap (·.listener) := by
  induction slots generalizing i with
  | nil => rfl
  | cons slot slots ih => obtain ⟨generation, _ | l⟩ := slot <;> simp [registrationsFrom, ih]

theorem map_listener_registrations (a : Arena α) : a.registrations.map (·.listener) = a.listeners :=
  map_listener_registrationsFrom

theorem count_eq (p : α → Bool) : a.count p = (a.listeners.filter p).length := by
  rw [count, listeners, ← List.countP_eq_length_filter, List.countP_filterMap]
  congr 1
  funext slot
  cases slot.listener <;> simp

/-- A slot that is emptied leaves the others as they are. -/
theorem registrationsFrom_set {k : Nat} (h : slots[k]? = some ⟨generation, some l⟩) (generation' : UInt32) :
    ∃ before after, registrationsFrom i slots = before ++ ⟨i + k, generation, l⟩ :: after ∧
      registrationsFrom i (slots.set k ⟨generation', none⟩) = before ++ after := by
  induction slots generalizing i k with
  | nil => simp at h
  | cons slot slots ih =>
    cases k with
    | zero =>
      obtain rfl : slot = ⟨generation, some l⟩ := by simpa using h
      exact ⟨[], registrationsFrom (i + 1) slots, rfl, rfl⟩
    | succ k =>
      obtain ⟨before, after, hbefore, hafter⟩ := ih (i := i + 1) (k := k) (by simpa using h)
      have hplace : i + 1 + k = i + (k + 1) := by omega
      rw [hplace] at hbefore
      obtain ⟨current, _ | first⟩ := slot
      · exact ⟨before, after, hbefore, hafter⟩
      · exact ⟨⟨i, current, first⟩ :: before, after, by simp [registrationsFrom, hbefore],
          by simp [registrationsFrom, hafter]⟩

theorem registrations_remove (h : a.Holds i generation l) :
    ∃ before after, a.registrations = before ++ ⟨i, generation, l⟩ :: after ∧
      (a.remove i generation).registrations = before ++ after := by
  have hs : a.slots[i]? = some ⟨generation, some l⟩ := h
  have he : (a.remove i generation).slots.toList = a.slots.toList.set i ⟨generation + 1, none⟩ := by
    simp [remove, hs]
  have hlist : a.slots.toList[i]? = some ⟨generation, some l⟩ := by simpa using hs
  obtain ⟨before, after, hbefore, hafter⟩ := registrationsFrom_set (i := 0) hlist (generation + 1)
  rw [Nat.zero_add] at hbefore
  exact ⟨before, after, hbefore, by rw [registrations, he, hafter]⟩

/-! One call. -/

theorem Holds.eq {l' : α} (h : a.Holds i generation l) (h' : a.Holds i generation' l') :
    generation = generation' ∧ l = l' := by
  rw [Holds, h] at h'
  simpa using h'

/-- A pair of another generation removes nobody. -/
theorem remove_of_not_holds (h : ∀ l, ¬ a.Holds i generation l) : a.remove i generation = a := by
  rw [remove]
  split
  next current l hs =>
    rw [if_neg]
    rintro rfl
    exact h l hs
  next => rfl

theorem Holds.remove (hok : a.Ok) (h : a.Holds j generation' l) (hne : ¬ (j = i ∧ generation' = generation)) :
    (a.remove i generation).Holds j generation' l := by
  by_cases hheld : ∃ l', a.Holds i generation l'
  · obtain ⟨l', hl'⟩ := hheld
    refine (hok.remove hl').2 j generation' l (fun hji => hne ⟨hji, ?_⟩) h
    subst hji
    exact (h.eq hl').1
  · rw [remove_of_not_holds (not_exists.mp hheld)]
    exact h

/-- Empty slots are there to be taken again. -/
def Tracked (a : Arena α) : Prop := ∀ i slot, a.slots[i]? = some slot → slot.listener = none → i ∈ a.free

theorem Tracked.insert (h : a.Tracked) (l : α) : (a.insert l).2.Tracked := by
  intro i slot hi hnone
  cases hf : a.free with
  | nil =>
    simp only [Arena.insert, hf, Array.getElem?_push] at hi ⊢
    split at hi
    · cases hi
      cases hnone
    · exact hf ▸ h i slot hi hnone
  | cons index free =>
    simp only [Arena.insert, hf, Array.getElem?_setIfInBounds] at hi ⊢
    split at hi
    · split at hi
      · cases hi
        cases hnone
      · cases hi
    next hne =>
      have hmem := h i slot hi hnone
      rw [hf] at hmem
      exact (List.mem_cons.mp hmem).resolve_left (Ne.symm hne)

theorem Tracked.remove (h : a.Tracked) (i : Nat) (generation : UInt32) : (a.remove i generation).Tracked := by
  intro j slot hj hnone
  by_cases hheld : ∃ l, a.Holds i generation l
  · obtain ⟨l, hl⟩ := hheld
    have hs : a.slots[i]? = some ⟨generation, some l⟩ := hl
    simp only [Arena.remove, hs, if_true, Array.getElem?_setIfInBounds] at hj ⊢
    split at hj
    next hji => exact hji ▸ List.mem_cons_self
    · exact List.mem_cons_of_mem _ (h j slot hj hnone)
  · rw [remove_of_not_holds (not_exists.mp hheld)] at hj ⊢
    exact h j slot hj hnone

/-! Any number of calls. -/

/-- What every call keeps. -/
structure Ledger.Kept (s : Ledger α) : Prop where
  ok : s.arena.Ok
  tracked : s.arena.Tracked
  distinct : s.outstanding.Pairwise (·.slot ≠ ·.slot)
  holds (r : Registration α) : r ∈ s.outstanding ↔ s.arena.Holds r.slot r.generation r.listener
  generation (i : Nat) (slot : Slot α) : s.arena.slots[i]? = some slot →
    slot.generation = UInt32.ofNat (s.endings i)
  past (r : Registration α) : r ∈ s.ended → r.slot < s.arena.slots.size ∧
    ∃ k < s.endings r.slot, r.generation = UInt32.ofNat k

theorem Ledger.Kept.start : Ledger.Kept ({} : Ledger α) where
  ok := Ok.empty
  tracked := fun i slot hi => by simp at hi
  distinct := .nil
  holds := fun r => by simp [Holds]
  generation := fun i slot hi => by simp at hi
  past := fun r hr => by simp at hr

theorem size_le_insert (l : α) : a.slots.size ≤ (a.insert l).2.slots.size := by
  rw [insert]
  split <;> simp

/-- A slot that is taken keeps its generation, and a new one begins with none ended. -/
theorem generation_insert {slot : Slot α} (h : (a.insert l).2.slots[i]? = some slot) :
    (∃ old, a.slots[i]? = some old ∧ slot.generation = old.generation) ∨ i = a.slots.size ∧ slot.generation = 0 := by
  cases hf : a.free with
  | nil =>
    simp only [Arena.insert, hf, Array.getElem?_push] at h
    split at h
    next hi =>
      cases h
      exact .inr ⟨hi, rfl⟩
    · exact .inl ⟨slot, h, rfl⟩
  | cons index free =>
    simp only [Arena.insert, hf, Array.getElem?_setIfInBounds] at h
    split at h
    next hi =>
      subst hi
      split at h
      next hlt =>
        cases h
        exact .inl ⟨a.slots[index], by simp [hlt], by simp [hlt]⟩
      · cases h
    · exact .inl ⟨slot, h, rfl⟩

theorem Ledger.Kept.insert (h : s.Kept) (l : α) : (s.serve (.insert l)).Kept := by
  obtain ⟨hok, hnew, hfresh, hold⟩ := h.ok.insert l
  have hnone : ∀ i, s.arena.slots.size ≤ i → s.endings i = 0 := fun i hi =>
    List.countP_eq_zero.mpr fun r hr he => by
      have hlt := (h.past r hr).1
      rw [beq_iff_eq.mp he] at hlt
      omega
  exact
    { ok := hok
      tracked := h.tracked.insert l
      distinct := List.pairwise_cons.mpr ⟨fun r hr he => by
        have hheld := (h.holds r).mp hr
        rw [← he] at hheld
        exact hfresh _ _ hheld, h.distinct⟩
      holds := fun r => by
        refine ⟨fun hr => ?_, fun hr => ?_⟩
        · rcases List.mem_cons.mp hr with rfl | hr
          · exact hnew
          · exact hold _ _ _ ((h.holds r).mp hr)
        · rcases holds_of_insert hr with hr | ⟨hpair, hl⟩
          · exact List.mem_cons_of_mem _ ((h.holds r).mpr hr)
          · obtain ⟨slot, generation, listener⟩ := r
            obtain ⟨rfl, rfl⟩ := Prod.mk.inj hpair
            obtain rfl : listener = l := hl
            exact List.mem_cons_self
      generation := fun i slot hi => by
        rcases generation_insert hi with ⟨old, hi, he⟩ | ⟨rfl, he⟩
        · exact he.trans (h.generation i old hi)
        · have hzero : (s.serve (.insert l)).endings s.arena.slots.size = 0 := hnone _ (Nat.le_refl _)
          rw [he, hzero]
          rfl
      past := fun r hr => by
        obtain ⟨hlt, hk⟩ := h.past r hr
        exact ⟨Nat.lt_of_lt_of_le hlt (size_le_insert l), hk⟩ }

/-- Of those outstanding no two have one slot. -/
theorem Ledger.Kept.filter_isAt (h : s.Kept) (hr : r ∈ s.outstanding) :
    s.outstanding.filter (·.isAt r.slot r.generation) = [r] := by
  obtain ⟨before, after, he⟩ := List.append_of_mem hr
  have hdistinct := h.distinct
  rw [he, List.pairwise_append, List.pairwise_cons] at hdistinct
  obtain ⟨-, ⟨hafter, -⟩, hbefore⟩ := hdistinct
  have hself : r.isAt r.slot r.generation = true := Registration.isAt_iff.mpr ⟨rfl, rfl⟩
  rw [he, List.filter_append, List.filter_cons, if_pos hself, List.filter_eq_nil_iff.mpr, List.filter_eq_nil_iff.mpr,
    List.nil_append]
  · intro r' hr' hat
    exact hafter r' hr' (Registration.isAt_iff.mp hat).1.symm
  · intro r' hr' hat
    exact hbefore r' hr' r List.mem_cons_self (Registration.isAt_iff.mp hat).1

theorem Ledger.Kept.remove_outstanding (h : s.Kept) (hr : r ∈ s.outstanding) :
    (s.serve (.remove r.slot r.generation)).Kept := by
  have hheld := (h.holds r).mp hr
  have hslot : s.arena.slots[r.slot]? = some ⟨r.generation, some r.listener⟩ := hheld
  have hlt := (Array.getElem?_eq_some_iff.mp hslot).1
  have hslots : (s.arena.remove r.slot r.generation).slots =
      s.arena.slots.setIfInBounds r.slot ⟨r.generation + 1, none⟩ := by
    simp [Arena.remove, hslot]
  have hendings : ∀ i, (s.serve (.remove r.slot r.generation)).endings i =
      s.endings i + if r.slot = i then 1 else 0 := fun i => by
    simp [endings, serve, h.filter_isAt hr, List.countP_cons]
  exact
    { ok := (h.ok.remove hheld).1
      tracked := h.tracked.remove _ _
      distinct := h.distinct.filter _
      holds := fun r' => by
        have hne : (!r'.isAt r.slot r.generation) = true ↔ ¬ (r'.slot = r.slot ∧ r'.generation = r.generation) := by
          rw [← Registration.isAt_iff]
          simp
        rw [serve, List.mem_filter, h.holds, hne]
        exact ⟨fun hr' => hr'.1.remove h.ok hr'.2, holds_of_remove⟩
      generation := fun i slot hi => by
        rw [hendings]
        simp only [serve, hslots, Array.getElem?_setIfInBounds] at hi
        by_cases hri : r.slot = i
        · subst hri
          simp only [if_true, hlt] at hi
          cases hi
          rw [if_pos rfl, UInt32.ofNat_add, ← h.generation _ _ hslot]
          rfl
        · rw [if_neg hri] at hi ⊢
          exact h.generation i slot hi
      past := fun r' hr' => by
        rw [hendings]
        simp only [serve, hslots, Array.size_setIfInBounds]
        rw [serve, h.filter_isAt hr] at hr'
        rcases List.mem_cons.mp hr' with rfl | hr'
        · exact ⟨hlt, s.endings r'.slot, by simp, h.generation _ _ hslot⟩
        · obtain ⟨hlt', k, hk, he⟩ := h.past r' hr'
          exact ⟨hlt', k, by omega, he⟩ }

/-- A pair that no outstanding registration has is given back in vain. -/
theorem Ledger.Kept.serve_remove (h : s.Kept) (hnone : ∀ r ∈ s.outstanding, r.isAt i generation = false) :
    s.serve (.remove i generation) = s := by
  have hholds : ∀ l, ¬ s.arena.Holds i generation l := fun l hl => by
    have hr := hnone ⟨i, generation, l⟩ ((h.holds _).mpr hl)
    simp [Registration.isAt] at hr
  rw [serve, remove_of_not_holds hholds, List.filter_eq_self.mpr fun r hr => by simp [hnone r hr],
    List.filter_eq_nil_iff.mpr fun r hr => by simp [hnone r hr]]
  rfl

theorem Ledger.Kept.serve (h : s.Kept) (call : Call α) : (s.serve call).Kept := by
  cases call with
  | insert l => exact h.insert l
  | remove i generation =>
    by_cases hheld : ∃ r ∈ s.outstanding, r.isAt i generation = true
    · obtain ⟨r, hr, hat⟩ := hheld
      obtain ⟨rfl, rfl⟩ := Registration.isAt_iff.mp hat
      exact h.remove_outstanding hr
    · rw [h.serve_remove fun r hr => Bool.eq_false_iff.mpr fun hat => hheld ⟨r, hr, hat⟩]
      exact h

theorem Ledger.Kept.serveAll (h : s.Kept) (calls : List (Call α)) : (s.serveAll calls).Kept := by
  induction calls generalizing s with
  | nil => exact h
  | cons call calls ih => exact ih (h.serve call)

/-! What follows. -/

theorem Ledger.Kept.mem_free_iff (h : s.Kept) :
    i ∈ s.arena.free ↔ ∃ slot, s.arena.slots[i]? = some slot ∧ slot.listener = none :=
  ⟨h.ok.free i, fun ⟨slot, hi, hnone⟩ => h.tracked i slot hi hnone⟩

theorem Ledger.Kept.perm (h : s.Kept) : s.arena.registrations.Perm s.outstanding := by
  refine (List.perm_ext_iff_of_nodup ?_ ?_).mpr fun r => by rw [mem_registrations, h.holds]
  · exact (pairwise_registrations s.arena).imp fun hlt he => absurd (congrArg Registration.slot he) (Nat.ne_of_lt hlt)
  · exact h.distinct.imp fun hne he => hne (congrArg Registration.slot he)

theorem Ledger.Kept.remove_ended (h : s.Kept) (hr : r ∈ s.ended) (hfew : s.endings r.slot < 2 ^ 32) :
    s.arena.remove r.slot r.generation = s.arena := by
  refine remove_of_not_holds fun l hl => ?_
  obtain ⟨-, k, hk, he⟩ := h.past r hr
  have hcurrent := h.generation _ _ hl
  rw [he] at hcurrent
  have hnat := congrArg UInt32.toNat hcurrent
  rw [UInt32.toNat_ofNat', UInt32.toNat_ofNat', Nat.mod_eq_of_lt (by omega), Nat.mod_eq_of_lt hfew] at hnat
  omega

end Arena

open Arena

/-- After any calls: the free slots are the empty ones, each of them once; no two outstanding registrations have one
slot; giving back the pair of one removes that one and no other, and giving back the pair of one that has ended does
nothing, as long as fewer than `2 ^ 32` have ended in its slot; and whoever is told at a node is who is outstanding and
hears, in the order of the slots, and is counted. -/
theorem registered_of_calls {calls : List (Arena.Call Listener)} {s : Ledger Listener}
    (hs : Ledger.serveAll {} calls = s) :
    (s.arena.free.Nodup ∧
      ∀ i, i ∈ s.arena.free ↔ ∃ slot, s.arena.slots[i]? = some slot ∧ slot.listener = none) ∧
    s.outstanding.Pairwise (·.slot ≠ ·.slot) ∧
    (∀ r ∈ s.outstanding, ∃ before after, s.arena.registrations = before ++ r :: after ∧
      (s.arena.remove r.slot r.generation).registrations = before ++ after) ∧
    (∀ r ∈ s.ended, s.endings r.slot < 2 ^ 32 → s.arena.remove r.slot r.generation = s.arena) ∧
    s.arena.registrations.Perm s.outstanding ∧ s.arena.registrations.Pairwise (·.slot < ·.slot) ∧
    ∀ (g : Graph) (n : NodeId), (g.cell n).listeners = s.arena →
      g.listening n = (s.arena.registrations.filter (g.hears ·.listener)).map (·.listener) ∧
        s.arena.count g.hears = (g.listening n).length ∧ (g.stateOf n).listeners = (g.listening n).length := by
  have hkept : s.Kept := hs ▸ Ledger.Kept.start.serveAll calls
  refine ⟨⟨hkept.ok.nodup, fun i => hkept.mem_free_iff⟩, hkept.distinct,
    fun r hr => registrations_remove ((hkept.holds r).mp hr), fun r hr => hkept.remove_ended hr, hkept.perm,
    pairwise_registrations s.arena, fun g n hn => ?_⟩
  have hlistening : g.listening n = s.arena.listeners.filter g.hears := by rw [Graph.listening, hn]
  refine ⟨?_, ?_, rfl⟩
  · rw [hlistening, ← map_listener_registrations, List.filter_map]
    rfl
  · rw [hlistening, count_eq]

/-- The first slot is taken again, and its first pair is given back three times; the node is gone. -/
def reusingCalls : List (Arena.Call Listener) :=
  [.insert (.callback 0), .insert (.node 7), .insert (.callback 1), .remove 0 0, .remove 0 0, .insert (.callback 2),
    .remove 0 0, .remove 2 0]

theorem registered_of_reused :
    ∃ s r, Ledger.serveAll {} reusingCalls = s ∧ r ∈ s.ended ∧ s.endings r.slot < 2 ^ 32 ∧
      s.arena.remove r.slot r.generation = s.arena ∧
      ∃ (g : Graph) (n : NodeId), (g.cell n).listeners = s.arena ∧ g.listening n = [.callback 2] := by
  let s : Ledger Listener := Ledger.serveAll {} reusingCalls
  let g : Graph := { cells := #[{ Cell.absent with listeners := s.arena }] }
  obtain ⟨-, -, -, hended, -, -, hsnapshot⟩ := registered_of_calls (s := s) rfl
  have hmem : (⟨0, 0, .callback 0⟩ : Registration Listener) ∈ s.ended := by decide
  have hfew : s.endings 0 < 2 ^ 32 := by
    have hone : s.endings 0 = 1 := by decide
    omega
  have hlistening : g.listening 0 = [.callback 2] := (hsnapshot g 0 rfl).1.trans (by decide)
  exact ⟨s, _, rfl, hmem, hfew, hended _ hmem hfew, g, 0, rfl, hlistening⟩

end FormulaGraph
