import FormulaGraph.Proofs.Lexing
import FormulaGraph.Proofs.Meaning
import FormulaGraph.Proofs.Numerals
import FormulaGraph.Proofs.Tally
import FormulaGraph.Graph.Scope
import Mathlib.Logic.Relation

/-! Items of lists by their numbers. The digits at the end of a name are the number of an item, all of them, so that
a list whose own name ends in a digit has no items to be named. -/

namespace FormulaGraph

variable {name : String} {k : Nat}

/-- The name of item `k` comes apart again where the digits begin. -/
theorem splitIndex?_numbered (hne : name ≠ "") (hdigit : ∀ c ∈ name.toList.getLast?, c.isDigit = false) (k : Nat) :
    splitIndex? (name ++ toString k) = if k = 0 ∨ 2 ^ 64 ≤ k then none else some (name, k) := by
  have htext : (name ++ toString k).toList.reverse = (Nat.toDigits 10 k).reverse ++ name.toList.reverse := by
    simp [Nat.toString_eq_repr]
  have hdigits : ∀ c ∈ (Nat.toDigits 10 k).reverse, c.isDigit = true := fun c hc =>
    Nat.isDigit_of_mem_toDigits (by decide) (by decide) (List.mem_reverse.mp hc)
  have hlist : name.toList ≠ [] := by simpa using hne
  have hname : name.toList.reverse.takeWhile Char.isDigit = [] ∧
      name.toList.reverse.dropWhile Char.isDigit = name.toList.reverse := by
    rw [← List.head?_reverse] at hdigit
    cases hrev : name.toList.reverse with
    | nil => simp at hrev; exact absurd hrev hne
    | cons c rest =>
      have hc : c.isDigit = false := hdigit c (by simp [hrev])
      simp [hc]
  have hvalue : digitsValue (Nat.toDigits 10 k) = k := by
    rw [digitsValue_eq, Nat.ofDigitChars_ten_toDigits]
  have hsome : Nat.toDigits 10 k ≠ [] := Nat.toDigits_ne_nil
  rw [splitIndex?, htext, List.takeWhile_append_of_pos hdigits, List.dropWhile_append_of_pos hdigits, hname.1, hname.2]
  simp only [List.append_nil, List.reverse_reverse, hvalue, String.ofList_toList, List.isEmpty_eq_false_iff.mpr hsome,
    List.isEmpty_eq_false_iff.mpr hlist, Bool.false_or, Nat.one_shiftLeft]
  by_cases hk : k = 0 <;> simp [hk]

namespace Graph

variable {g : Graph} {r : RecordId} {item member : Member} {items old : List Member}

/-- The records in which a name of `r` is looked up. -/
def FallsBack (g : Graph) : RecordId → RecordId → Prop :=
  Relation.ReflTransGen fun r parent => (g.record r).parent = some parent

theorem find?_eq_none (h : ∀ r', g.FallsBack r r' → g.member? r' name = none) : g.find? r name = none := by
  fun_induction find? g r name with
  | case1 r found hfound =>
    have hnone := h r .refl
    rw [member?, hfound] at hnone
    cases hnone
  | case2 r hnone parent hp hlt ih => exact ih fun r' hr' => h r' (.head hp hr')
  | case3 => rfl
  | case4 => rfl

theorem find?_of_member? (h : g.member? r name = some member) : g.find? r name = some member := by
  rw [member?] at h
  rw [find?, h]

/-- Puts the items under the name one after the other, and tells the number of each. -/
def pushAll (g : Graph) (r : RecordId) (name : String) : List Member → List Nat × Graph
  | [] => ([], g)
  | item :: items =>
    let (index, g) := g.push r name item
    let (indices, g) := g.pushAll r name items
    (index :: indices, g)

theorem size_push : (g.push r name item).2.records.size = g.records.size := by
  simp [push, modifyRecord]

theorem member?_push (hr : r < g.records.size) (name : String) (item : Member) :
    (g.push r name item).2.member? r name = some (.list (pushed (g.member? r name) item)) := by
  simp [push, member?, record_modifyRecord, hr]

theorem pushAll_of_list (hr : r < g.records.size) (h : g.member? r name = some (.list old)) (items : List Member) :
    (g.pushAll r name items).1 = List.range' (old.length + 1) items.length ∧
      (g.pushAll r name items).2.member? r name = some (.list (old ++ items)) := by
  induction items generalizing g old with
  | nil => simpa [pushAll] using h
  | cons item items ih =>
    have hpushed := member?_push hr name item
    rw [h] at hpushed
    obtain ⟨hindices, hmember⟩ := ih (size_push.symm ▸ hr) hpushed
    have hindex : (g.push r name item).1 = old.length + 1 := by simp [push, h, pushed]
    simp only [pushAll, hindices, hmember, hindex, List.range'_succ, pushed, List.length_append, List.length_cons,
      List.length_nil, List.append_assoc, List.cons_append, List.nil_append, and_self]

theorem pushAll_of_none (hr : r < g.records.size) (h : g.member? r name = none) (items : List Member) :
    (g.pushAll r name items).1 = List.range' 1 items.length ∧
      (items ≠ [] → (g.pushAll r name items).2.member? r name = some (.list items)) := by
  cases items with
  | nil => simp [pushAll]
  | cons item items =>
    have hpushed := member?_push hr name item
    rw [h] at hpushed
    obtain ⟨hindices, hmember⟩ := pushAll_of_list (size_push.symm ▸ hr) hpushed items
    have hindex : (g.push r name item).1 = 1 := by simp [push, h, pushed]
    refine ⟨?_, fun _ => hmember⟩
    simp only [pushAll, hindices, hindex, pushed, List.length_cons, List.length_nil, List.range'_succ]

theorem resolve?_of_list (hfree : g.find? r (name ++ toString k) = none) (h : g.find? r name = some (.list items))
    (hne : name ≠ "") (hdigit : ∀ c ∈ name.toList.getLast?, c.isDigit = false) (hsize : items.length < 2 ^ 64) :
    g.resolve? r (name ++ toString k) = if k = 0 then none else items[k - 1]? := by
  rw [resolve?, hfree, splitIndex?_numbered hne hdigit]
  by_cases hk : k = 0 ∨ 2 ^ 64 ≤ k
  · have hbeyond : k ≠ 0 → items[k - 1]? = none := fun hpos => List.getElem?_eq_none (by omega)
    rw [if_pos hk]
    by_cases hzero : k = 0
    · simp [hzero]
    · simp [hzero, hbeyond hzero]
  · have hzero : k ≠ 0 := fun hz => hk (.inl hz)
    rw [if_neg hk]
    simp [hzero, h]

theorem resolve?_of_none (hfree : g.find? r (name ++ toString k) = none) (h : g.find? r name = none) (hne : name ≠ "")
    (hdigit : ∀ c ∈ name.toList.getLast?, c.isDigit = false) : g.resolve? r (name ++ toString k) = none := by
  rw [resolve?, hfree, splitIndex?_numbered hne hdigit]
  by_cases hk : k = 0 ∨ 2 ^ 64 ≤ k
  · rw [if_pos hk]
    rfl
  · rw [if_neg hk]
    simp [h]

/-- With its number behind the name each item is found, and no other number finds any, unless that is a name of its
own. -/
def Numbered (g : Graph) (r : RecordId) (name : String) (items : List Member) : Prop :=
  ∀ k : Nat, (∀ r', g.FallsBack r r' → g.member? r' (name ++ toString k) = none) →
    g.resolve? r (name ++ toString k) = if k = 0 then none else items[k - 1]?

theorem ne_empty_of_tokenize (h : tokenize name = .ok [⟨0, .name name⟩]) : name ≠ "" := by
  rintro rfl
  have hempty : tokenize "" = .ok [] := tokensFrom_blank (by simp)
  rw [hempty] at h
  cases h

/-- Items that are put under a new name that does not end in a digit are numbered from one, and found by their
numbers. No list has as many as `2 ^ 64`. -/
theorem numbered_of_pushed (hr : r < g.records.size) (hname : tokenize name = .ok [⟨0, .name name⟩])
    (hdigit : ∀ c ∈ name.toList.getLast?, c.isDigit = false) (hnone : g.member? r name = none)
    (hsize : items.length < 2 ^ 64) (hitems : items ≠ [] ∨ g.find? r name = none) :
    (g.pushAll r name items).1 = List.range' 1 items.length ∧ (g.pushAll r name items).2.Numbered r name items := by
  have hne := ne_empty_of_tokenize hname
  obtain ⟨hindices, hmember⟩ := pushAll_of_none hr hnone items
  refine ⟨hindices, fun k hfree => ?_⟩
  have hfound := find?_eq_none hfree
  by_cases hempty : items = []
  · subst hempty
    rw [resolve?_of_none hfound (hitems.resolve_left (by simp)) hne hdigit]
    simp
  · exact resolve?_of_list hfound (find?_of_member? (hmember hempty)) hne hdigit hsize

/-- A record with a list "P" of one node, and another that falls back on it. -/
def shelves : Graph :=
  let g := (Graph.addConstant {} (.bool true)).2
  let g := (g.addRecord none).2
  ((g.push 0 "P" (.node 0)).2.addRecord (some 0)).2

theorem eq_or_eq_of_fallsBack {g : Graph} {r' : RecordId} (hparent : (g.record 1).parent = some 0)
    (hroot : (g.record 0).parent = none) (h : g.FallsBack 1 r') : r' = 1 ∨ r' = 0 := by
  rcases Relation.ReflTransGen.cases_head h with rfl | ⟨parent, hp, hrest⟩
  · exact .inl rfl
  · rw [hparent] at hp
    obtain rfl := Option.some.inj hp
    rcases Relation.ReflTransGen.cases_head hrest with rfl | ⟨parent, hp, -⟩
    · exact .inr rfl
    · rw [hroot] at hp
      cases hp

theorem numbered_of_two_pushed :
    1 < shelves.records.size ∧ tokenize "Größe" = .ok [⟨0, .name "Größe"⟩] ∧ shelves.member? 1 "Größe" = none ∧
      (shelves.pushAll 1 "Größe" [.node 0, .record 0]).1 = [1, 2] ∧
      (shelves.pushAll 1 "Größe" [.node 0, .record 0]).2.Numbered 1 "Größe" [.node 0, .record 0] := by
  have hr : 1 < shelves.records.size := by decide +kernel
  have hname : tokenize "Größe" = .ok [⟨0, .name "Größe"⟩] := toOption_eq_some.mp (by decide +kernel)
  have hnone : shelves.member? 1 "Größe" = none := Option.isNone_iff_eq_none.mp (by decide +kernel)
  exact ⟨hr, hname, hnone, numbered_of_pushed hr hname (by simp) hnone (by simp) (.inl (by simp))⟩

/-- The number behind "P1" is taken for one behind "P" with more digits, and with nothing under "P" the list of the
other record shows. -/
theorem not_numbered_of_pushed :
    1 < shelves.records.size ∧
      (tokenize "P1" = .ok [⟨0, .name "P1"⟩] ∧ shelves.member? 1 "P1" = none ∧
        ¬ (shelves.pushAll 1 "P1" [.node 0]).2.Numbered 1 "P1" [.node 0]) ∧
      tokenize "P" = .ok [⟨0, .name "P"⟩] ∧ shelves.member? 1 "P" = none ∧
        ¬ (shelves.pushAll 1 "P" []).2.Numbered 1 "P" [] := by
  have hfree : ∀ {g : Graph} {name : String}, (g.record 1).parent = some 0 → (g.record 0).parent = none →
      ((g.member? 1 name).isNone && (g.member? 0 name).isNone) = true →
      ∀ r', g.FallsBack 1 r' → g.member? r' name = none := by
    intro g name hparent hroot hnone r' hr'
    obtain ⟨hone, hzero⟩ := Bool.and_eq_true_iff.mp hnone
    rcases eq_or_eq_of_fallsBack hparent hroot hr' with rfl | rfl
    · exact Option.isNone_iff_eq_none.mp hone
    · exact Option.isNone_iff_eq_none.mp hzero
  refine ⟨by decide +kernel, ⟨toOption_eq_some.mp (by decide +kernel), Option.isNone_iff_eq_none.mp (by decide +kernel),
    fun h => ?_⟩, toOption_eq_some.mp (by decide +kernel), Option.isNone_iff_eq_none.mp (by decide +kernel), fun h => ?_⟩
  · have hfound := h 1 (hfree (by decide +kernel) (by decide +kernel) (by decide +kernel))
    have hnone : ((shelves.pushAll 1 "P1" [.node 0]).2.resolve? 1 ("P1" ++ toString 1)).isNone = true := by
      decide +kernel
    rw [hfound] at hnone
    cases hnone
  · have hfound := h 1 (hfree (by decide +kernel) (by decide +kernel) (by decide +kernel))
    have hsome : ((shelves.pushAll 1 "P" []).2.resolve? 1 ("P" ++ toString 1)).isSome = true := by
      decide +kernel
    rw [hfound] at hsome
    cases hsome

end Graph

end FormulaGraph
