import FormulaGraph.Proofs.Changes
import FormulaGraph.Workspace.Change
import Mathlib.Data.List.Basic

/-! What changes do to the formulas of a graph. Setting the formulas of some nodes makes up for what was set for the
same nodes before, so that changes of the same nodes come to one change. -/

namespace FormulaGraph

/-- The formula of each node that has one. -/
abbrev Formulas := NodeId → Option String

namespace Formulas

variable {d : Formulas} {texts later : List (NodeId × String)} {n m : NodeId}

/-- Only what has a formula gets another one. -/
def set (d : Formulas) (n : NodeId) (text : String) : Formulas :=
  fun m => if m = n then (d n).map fun _ => text else d m

def setAll (d : Formulas) (texts : List (NodeId × String)) : Formulas :=
  texts.foldl (fun d entry => d.set entry.1 entry.2) d

/-- The last text for a node is the one that stays. -/
theorem setAll_apply (d : Formulas) (texts : List (NodeId × String)) (m : NodeId) :
    d.setAll texts m = (d m).map fun old => (texts.reverse.lookup m).getD old := by
  induction texts generalizing d with
  | nil => simp [setAll]
  | cons entry texts ih =>
    obtain ⟨n, text⟩ := entry
    have hstep : d.setAll ((n, text) :: texts) = (d.set n text).setAll texts := rfl
    rw [hstep, ih, List.reverse_cons, List.lookup_append, set]
    split
    next hmn =>
      subst hmn
      cases d m <;> cases texts.reverse.lookup m <;> simp
    next hmn =>
      have hbeq : (m == n) = false := beq_eq_false_iff_ne.mpr hmn
      cases texts.reverse.lookup m <;> simp [List.lookup_cons, hbeq]

theorem lookup_reverse_eq_none_iff : texts.reverse.lookup m = none ↔ m ∉ texts.map Prod.fst := by
  rw [List.lookup_eq_none_iff]
  simp only [List.mem_reverse, bne_iff_ne, List.mem_map, not_exists, not_and]
  exact forall₂_congr fun _ _ => ne_comm

theorem setAll_of_notMem (d : Formulas) (hm : m ∉ texts.map Prod.fst) : d.setAll texts m = d m := by
  rw [setAll_apply, lookup_reverse_eq_none_iff.mpr hm]
  exact Option.map_id'

theorem exists_lookup_reverse (hm : m ∈ texts.map Prod.fst) : ∃ text, texts.reverse.lookup m = some text := by
  cases hlookup : texts.reverse.lookup m with
  | none => exact absurd hm (lookup_reverse_eq_none_iff.mp hlookup)
  | some text => exact ⟨text, rfl⟩

/-- What is set for the same nodes once more makes up for it. -/
theorem setAll_setAll (d : Formulas) (h : texts.map Prod.fst ⊆ later.map Prod.fst) :
    (d.setAll texts).setAll later = d.setAll later := by
  funext m
  rw [setAll_apply, setAll_apply, setAll_apply, Option.map_map]
  congr 1
  funext old
  cases hlater : later.reverse.lookup m with
  | some text => rfl
  | none =>
    have hnone : texts.reverse.lookup m = none :=
      lookup_reverse_eq_none_iff.mpr fun hm => lookup_reverse_eq_none_iff.mp hlater (h hm)
    simp [hnone]

end Formulas

namespace Change

variable {a b c : Change} {d : Formulas} {m : NodeId}

def edits : Change → List FormulaEdit
  | formulas edits => edits
  | _ => []

def targets (change : Change) : List NodeId := change.edits.map FormulaEdit.target

/-- The texts to be set, in the order they are set. -/
def news (change : Change) : List (NodeId × String) := change.edits.map fun edit => (edit.target, edit.new)

/-- The texts that were there before. -/
def olds (change : Change) : List (NodeId × String) := change.edits.map fun edit => (edit.target, edit.old)

theorem map_fst_news (change : Change) : change.news.map Prod.fst = change.targets := List.map_map

theorem map_fst_olds (change : Change) : change.olds.map Prod.fst = change.targets := List.map_map

theorem zipWith_edits {edits later : List FormulaEdit}
    (h : edits.map FormulaEdit.target = later.map FormulaEdit.target) :
    (formulas (List.zipWith (fun edit next => { edit with new := next.new }) edits later)).news =
        (formulas later).news ∧
      (formulas (List.zipWith (fun edit next => { edit with new := next.new }) edits later)).olds =
        (formulas edits).olds := by
  induction edits generalizing later with
  | nil =>
    obtain rfl : later = [] := List.map_eq_nil_iff.mp h.symm
    exact ⟨rfl, rfl⟩
  | cons edit edits ih =>
    cases later with
    | nil => cases h
    | cons next later =>
      obtain ⟨htarget, hrest⟩ := List.cons.inj h
      obtain ⟨hnews, holds⟩ := ih hrest
      exact ⟨congrArg₂ List.cons (congrArg (·, next.new) htarget) hnews, congrArg (List.cons _) holds⟩

/-- Of two changes that are merged, the first one knows what was there before, and the second what comes of it. -/
theorem of_merge? (h : a.merge? b = some c) : a.targets = b.targets ∧ c.news = b.news ∧ c.olds = a.olds := by
  cases a with
  | formulas edits =>
    cases b with
    | formulas later =>
      rw [merge?] at h
      split at h
      next hsame =>
        cases h
        exact ⟨hsame, zipWith_edits hsame⟩
      · cases h
    | value | marker => cases h
  | value target old new =>
    cases b with
    | value target' old' new' =>
      rw [merge?] at h
      split at h
      · cases h
        exact ⟨rfl, rfl, rfl⟩
      · cases h
    | formulas | marker => cases h
  | marker => cases b <;> cases h

/-- The change was made for these formulas. -/
def Suits (d : Formulas) (change : Change) : Prop := ∀ entry ∈ change.olds, d entry.1 = some entry.2

theorem Suits.exists_old (h : a.Suits d) (hm : m ∈ a.targets) : ∃ old, d m = some old := by
  rw [← map_fst_olds] at hm
  obtain ⟨entry, hentry, rfl⟩ := List.mem_map.mp hm
  exact ⟨entry.2, h entry hentry⟩

/-- The last of the new texts is the formula then. -/
theorem setAll_news (h : a.Suits d) (m : NodeId) : d.setAll a.news m = (a.news.reverse.lookup m).or (d m) := by
  rw [Formulas.setAll_apply]
  cases hlookup : a.news.reverse.lookup m with
  | none => simp
  | some text =>
    have hm : m ∈ a.targets := by
      by_contra hm
      rw [← map_fst_news, ← Formulas.lookup_reverse_eq_none_iff, hlookup] at hm
      cases hm
    obtain ⟨old, hold⟩ := h.exists_old hm
    rw [hold]
    rfl

theorem exists_new (hm : m ∈ a.targets) : ∃ text, ∀ (d : Formulas) (old : String), d m = some old →
    d.setAll a.news m = some text := by
  rw [← map_fst_news] at hm
  obtain ⟨text, hlookup⟩ := Formulas.exists_lookup_reverse hm
  refine ⟨text, fun d old hold => ?_⟩
  rw [Formulas.setAll_apply, hlookup, hold]
  rfl

/-- The first of the old texts is the formula that there was. -/
theorem setAll_olds_of_mem {d' : Formulas} {text : String} (h : a.Suits d) (hm : m ∈ a.targets)
    (hd : d' m = some text) :
    d'.setAll a.olds.reverse m = d m := by
  have hmem : m ∈ a.olds.reverse.map Prod.fst := by
    rwa [List.map_reverse, List.mem_reverse, map_fst_olds]
  obtain ⟨old, hlookup⟩ := Formulas.exists_lookup_reverse hmem
  rw [Formulas.setAll_apply, hlookup, hd]
  rw [List.reverse_reverse] at hlookup
  obtain ⟨before, after, holds, -⟩ := List.lookup_eq_some_iff.mp hlookup
  exact (h (m, old) (holds ▸ List.mem_append_right before List.mem_cons_self)).symm

theorem setAll_olds_of_notMem (d : Formulas) (hm : m ∉ a.targets) : d.setAll a.olds.reverse m = d m := by
  refine Formulas.setAll_of_notMem d ?_
  rwa [List.map_reverse, List.mem_reverse, map_fst_olds]

theorem setAll_olds (h : a.Suits d) : (d.setAll a.news).setAll a.olds.reverse = d := by
  funext m
  by_cases hm : m ∈ a.targets
  · obtain ⟨old, hold⟩ := h.exists_old hm
    obtain ⟨text, hnew⟩ := exists_new hm
    exact setAll_olds_of_mem h hm (hnew d old hold)
  · rw [setAll_olds_of_notMem _ hm, Formulas.setAll_of_notMem]
    rwa [map_fst_news]

theorem setAll_merged (h : a.merge? b = some c) (d : Formulas) : d.setAll c.news = (d.setAll a.news).setAll b.news := by
  obtain ⟨htargets, hnews, -⟩ := of_merge? h
  have hsame : a.news.map Prod.fst ⊆ b.news.map Prod.fst := by
    rw [map_fst_news, map_fst_news, htargets]
    exact List.Subset.refl _
  rw [hnews, Formulas.setAll_setAll d hsame]

theorem setAll_merged_olds (h : a.merge? b = some c) (d : Formulas) :
    d.setAll c.olds.reverse = (d.setAll b.olds.reverse).setAll a.olds.reverse := by
  obtain ⟨htargets, -, holds⟩ := of_merge? h
  have hsame : b.olds.reverse.map Prod.fst ⊆ a.olds.reverse.map Prod.fst := by
    rw [List.map_reverse, List.map_reverse, map_fst_olds, map_fst_olds, htargets]
    exact List.Subset.refl _
  rw [holds, Formulas.setAll_setAll d hsame]

end Change

/-- How changes act on the formulas. -/
def formulaEditing : Editing Change Formulas where
  apply change d := d.setAll change.news
  revert change d := d.setAll change.olds.reverse
  merge? := Change.merge?
  Suits d change := change.Suits d
  revert_apply := Change.setAll_olds
  merged_suits ha _ hm := by
    rw [Change.Suits, (Change.of_merge? hm).2.2]
    exact ha
  apply_merged _ _ hm := Change.setAll_merged hm _

namespace Change

variable {first merged : Change} {later : List Change}

/-- Changes of the same nodes come to one change. -/
theorem exists_merged {edits : List FormulaEdit} (hformulas : ∀ change ∈ later, ∃ edits, change = .formulas edits)
    (h : ∀ change ∈ later, change.targets = (formulas edits).targets) :
    ∃ merged, later.foldlM merge? (formulas edits) = some merged := by
  induction later generalizing edits with
  | nil => exact ⟨_, rfl⟩
  | cons change later ih =>
    obtain ⟨next, rfl⟩ := hformulas change List.mem_cons_self
    have hsame : edits.map FormulaEdit.target = next.map FormulaEdit.target := (h _ List.mem_cons_self).symm
    obtain ⟨both, hboth⟩ : ∃ both, merge? (formulas edits) (formulas next) = some (formulas both) :=
      ⟨_, if_pos hsame⟩
    have htargets : (formulas both).targets = (formulas edits).targets := by
      rw [← map_fst_olds, (of_merge? hboth).2.2, map_fst_olds]
    rw [List.foldlM_cons, hboth]
    exact ih (fun change hchange => hformulas change (List.mem_cons_of_mem _ hchange)) fun change hchange =>
      (h change (List.mem_cons_of_mem _ hchange)).trans htargets.symm

theorem of_foldlM_merge? (h : later.foldlM merge? first = some merged) :
    merged.olds = first.olds ∧ (∀ d, formulaEditing.apply merged d = formulaEditing.applyAll (first :: later) d) ∧
      ∀ d, formulaEditing.revert merged d = formulaEditing.enactAll ((first :: later).reverse.map .revert) d := by
  induction later generalizing first with
  | nil =>
    cases h
    exact ⟨rfl, fun _ => rfl, fun _ => rfl⟩
  | cons next later ih =>
    rw [List.foldlM_cons] at h
    obtain ⟨both, hboth, hmerged⟩ := Option.bind_eq_some_iff.mp h
    obtain ⟨holds, happly, hrevert⟩ := ih hmerged
    refine ⟨holds.trans (of_merge? hboth).2.2, fun d => ?_, fun d => ?_⟩
    · rw [happly, Editing.applyAll_cons, Editing.applyAll_cons, Editing.applyAll_cons]
      exact congrArg (formulaEditing.applyAll later) (setAll_merged hboth d)
    · rw [hrevert, List.reverse_cons, List.reverse_cons, List.reverse_cons, List.map_append, List.map_append,
        List.map_append, Editing.enactAll_append, Editing.enactAll_append, Editing.enactAll_append]
      exact setAll_merged_olds hboth _

end Change

end FormulaGraph
