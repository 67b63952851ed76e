import Std.Data.TreeMap.Lemmas

/-! Counting over tables. Putting an entry in or taking one out changes a count by what that entry, and the
one it replaces, contribute. -/

namespace FormulaGraph

variable {α β : Type} {table : Std.TreeMap String α} {f : α → List β} {k : String} {p : β → Bool}

/-- Everything that the entries of a table come to. -/
def allOf (f : α → List β) (table : Std.TreeMap String α) : List β :=
  table.toList.flatMap fun entry => f entry.2

theorem mem_allOf {v : α} {x : β} (h : table[k]? = some v) (hx : x ∈ f v) : x ∈ allOf f table :=
  List.mem_flatMap.mpr ⟨(k, v), Std.TreeMap.mem_toList_iff_getElem?_eq_some.mpr h, hx⟩

theorem nodup_toList (table : Std.TreeMap String α) : table.toList.Nodup := by
  refine (table.distinct_keys_toList).imp fun {a b} h heq => ?_
  rw [heq] at h
  simp at h

theorem mem_filter_ne {entry : String × α} :
    entry ∈ (table.toList.filter fun entry => !(k == entry.1)) ↔
      k ≠ entry.1 ∧ table[entry.1]? = some entry.2 := by
  obtain ⟨key, v⟩ := entry
  rw [List.mem_filter, Std.TreeMap.mem_toList_iff_getElem?_eq_some]
  simp [and_comm]

/-- The entry under a key, if there is one, and the others. -/
theorem toList_perm (table : Std.TreeMap String α) (k : String) :
    table.toList.Perm
      (table[k]?.toList.map (fun v => (k, v)) ++ table.toList.filter fun entry => !(k == entry.1)) := by
  have hnodup : (table[k]?.toList.map (fun v => (k, v)) ++
      table.toList.filter fun entry => !(k == entry.1)).Nodup := by
    refine List.nodup_append.mpr ⟨?_, (nodup_toList table).filter _, ?_⟩
    · cases table[k]? <;> simp
    · intro entry hentry other hother heq
      rw [heq] at hentry
      obtain ⟨v, -, he⟩ := List.mem_map.mp hentry
      exact (mem_filter_ne.mp hother).1 (he ▸ rfl)
  refine (List.perm_ext_iff_of_nodup (nodup_toList table) hnodup).mpr fun entry => ?_
  obtain ⟨key, v⟩ := entry
  rw [List.mem_append, mem_filter_ne, Std.TreeMap.mem_toList_iff_getElem?_eq_some]
  by_cases hk : k = key
  · subst hk
    cases table[k]? <;> simp [eq_comm]
  · simp [hk]

theorem toList_erase_perm (table : Std.TreeMap String α) (k : String) :
    (table.erase k).toList.Perm (table.toList.filter fun entry => !(k == entry.1)) := by
  refine (List.perm_ext_iff_of_nodup (nodup_toList _) ((nodup_toList table).filter _)).mpr fun entry => ?_
  obtain ⟨key, v⟩ := entry
  rw [mem_filter_ne, Std.TreeMap.mem_toList_iff_getElem?_eq_some, Std.TreeMap.getElem?_erase]
  by_cases hk : k = key <;> simp [hk]

theorem countP_allOf (table : Std.TreeMap String α) (k : String) :
    (allOf f table).countP p = (table[k]?.toList.flatMap f).countP p +
      ((table.toList.filter fun entry => !(k == entry.1)).flatMap fun entry => f entry.2).countP p := by
  have hall := (toList_perm table k).flatMap_right fun entry => f entry.2
  rw [allOf, hall.countP_eq, List.flatMap_append, List.countP_append, List.flatMap_map]

theorem countP_allOf_insert (f : α → List β) (table : Std.TreeMap String α) (k : String) (v : α)
    (p : β → Bool) :
    (allOf f (table.insert k v)).countP p + (table[k]?.toList.flatMap f).countP p =
      (allOf f table).countP p + (f v).countP p := by
  have hperm := (Std.TreeMap.toList_insert_perm (t := table) (k := k) (v := v)).flatMap_right
    fun entry => f entry.2
  have hother : (fun entry : String × α => decide ¬ (k == entry.1) = true) =
      fun entry => !(k == entry.1) := by
    funext entry
    cases k == entry.1 <;> rfl
  rw [countP_allOf table k, allOf, hperm.countP_eq, List.flatMap_cons, List.countP_append, hother]
  dsimp only
  omega

theorem countP_allOf_erase (f : α → List β) (table : Std.TreeMap String α) (k : String) (p : β → Bool) :
    (allOf f (table.erase k)).countP p + (table[k]?.toList.flatMap f).countP p =
      (allOf f table).countP p := by
  have hperm := (toList_erase_perm table k).flatMap_right fun entry => f entry.2
  rw [countP_allOf table k, allOf, hperm.countP_eq]
  omega

end FormulaGraph
