import FormulaGraph.Proofs.Searching
import FormulaGraph.Proofs.Settling

/-! The order in which nodes are settled. Unless a node leads back to itself, each node comes after those of its
inputs that have to be worked out, however many ways lead there. -/

namespace FormulaGraph

open Relation

namespace Graph

def Visit.node : Visit → NodeId
  | .enter n | .leave n => n

def Visit.leaving? : Visit → Option NodeId
  | .enter _ => none
  | .leave n => some n

/-- The one node is dirty and reads the other, or names it in a formula that is not built yet. -/
def DrawsOn (g : Graph) (n d : NodeId) : Prop := (g.cell n).dirty = true ∧ d ∈ g.inputs n

/-- Every node is there once, and comes after those of its inputs that have to be worked out. -/
structure Sequenced (g : Graph) (order : List NodeId) : Prop where
  nodup : order.Nodup
  before (before after : List NodeId) (m d : NodeId) : order = before ++ m :: after → d ∈ g.inputs m →
    g.needsWork d = true → d ∈ before

/-- Whenever a node is left, those of its inputs that have to be worked out are in `P` or have been visited by
then. -/
def Schedules (g : Graph) (P : NodeId → Prop) : List Visit → Prop
  | [] => True
  | .enter n :: visits => g.Schedules (fun m => P m ∨ m = n) visits
  | .leave n :: visits =>
    (∀ d ∈ g.inputs n, g.needsWork d = true → P d) ∧ g.Schedules (fun m => P m ∨ m = n) visits

/-- The nodes that have been entered. -/
def entered (visits : List Visit) (left : List NodeId) : List NodeId := visits.filterMap Visit.leaving? ++ left

/-- On the way through the inputs of nodes in `Q`. -/
structure Search (g : Graph) (Q : NodeId → Prop) (visits : List Visit) (marks : Marks) (left : List NodeId) :
    Prop where
  within (m : NodeId) : .enter m ∈ visits → Q m
  /-- What is visited before a node is left is what the node leads to. -/
  above : visits.Pairwise fun x y => ∀ n, y = .leave n → TransGen g.DrawsOn n x.node
  marked (m : NodeId) : m ∈ entered visits left → marks.isNew m = false
  met (m : NodeId) : g.needsWork m = true → marks.isNew m = false → m ∈ entered visits left
  nodup : (entered visits left).Nodup
  schedules : g.Schedules (· ∈ left) visits
  sequenced : g.Sequenced left.reverse

variable {g : Graph} {P P' Q : NodeId → Prop} {visits : List Visit} {marks : Marks} {left order : List NodeId}
  {n m : NodeId}

theorem Sequenced.concat (h : g.Sequenced order) (hn : n ∉ order)
    (hinputs : ∀ d ∈ g.inputs n, g.needsWork d = true → d ∈ order) : g.Sequenced (order ++ [n]) where
  nodup := by
    rw [List.nodup_append]
    refine ⟨h.nodup, List.pairwise_singleton _ n, fun a ha b hb => ?_⟩
    rintro rfl
    exact hn (List.mem_singleton.mp hb ▸ ha)
  before before after m d he hd hneeds := by
    rcases List.eq_nil_or_concat after with rfl | ⟨after, last, rfl⟩
    · obtain ⟨rfl, hm⟩ := List.append_inj' he rfl
      cases hm
      exact hinputs d hd hneeds
    · rw [List.concat_eq_append, ← List.cons_append, ← List.append_assoc] at he
      exact h.before before after m d (List.append_inj' he rfl).1 hd hneeds

theorem Schedules.mono (h : g.Schedules P visits) (hP : ∀ d, g.needsWork d = true → P d → P' d) :
    g.Schedules P' visits := by
  induction visits generalizing P P' with
  | nil => trivial
  | cons visit visits ih =>
    cases visit with
    | enter n => exact ih h fun d hneeds => Or.imp_left (hP d hneeds)
    | leave n =>
      exact ⟨fun d hd hneeds => hP d hneeds (h.1 d hd hneeds), ih h.2 fun d hneeds => Or.imp_left (hP d hneeds)⟩

theorem schedules_enter (nodes : List NodeId) (h : g.Schedules (fun m => P m ∨ m ∈ nodes) visits) :
    g.Schedules P (nodes.map .enter ++ visits) := by
  induction nodes generalizing P with
  | nil => exact h.mono fun d _ hd => hd.resolve_right List.not_mem_nil
  | cons n nodes ih =>
    refine ih (h.mono fun d _ hd => ?_)
    rcases hd with hd | hd
    · exact .inl (.inl hd)
    · exact (List.mem_cons.mp hd).imp .inr id

namespace Search

/-- The node that is left had its inputs scheduled. -/
theorem leave (h : g.Search Q (.leave n :: visits) marks left) : g.Search Q visits marks (n :: left) := by
  have hperm : (entered (.leave n :: visits) left).Perm (entered visits (n :: left)) := List.perm_middle.symm
  exact
    { within := fun m hm => h.within m (List.mem_cons_of_mem _ hm)
      above := (List.pairwise_cons.mp h.above).2
      marked := fun m hm => h.marked m (hperm.mem_iff.mpr hm)
      met := fun m hneeds hold => hperm.mem_iff.mp (h.met m hneeds hold)
      nodup := hperm.nodup_iff.mp h.nodup
      schedules := h.schedules.2.mono fun d _ hd => List.mem_cons.mpr hd.symm
      sequenced := by
        rw [List.reverse_cons]
        refine h.sequenced.concat (fun hn => ?_) fun d hd hneeds => List.mem_reverse.mpr (h.schedules.1 d hd hneeds)
        exact (List.nodup_cons.mp h.nodup).1 (List.mem_append_right _ (List.mem_reverse.mp hn)) }

/-- A node that is met again has been left already, since it does not lead back to itself. -/
theorem skip (h : g.Search Q (.enter n :: visits) marks left)
    (hacyclic : ∀ m, Q m → ¬ TransGen g.DrawsOn m m)
    (hold : ¬ (g.needsWork n = true ∧ marks.isNew n = true)) : g.Search Q visits marks left where
  within m hm := h.within m (List.mem_cons_of_mem _ hm)
  above := (List.pairwise_cons.mp h.above).2
  marked := h.marked
  met := h.met
  nodup := h.nodup
  schedules := by
    refine Schedules.mono (show g.Schedules (fun m => m ∈ left ∨ m = n) visits from h.schedules) fun d hneeds hd => ?_
    rcases hd with hd | rfl
    · exact hd
    · have hmet := h.met d hneeds (Bool.eq_false_iff.mpr fun hnew => hold ⟨hneeds, hnew⟩)
      refine (List.mem_append.mp hmet).resolve_left fun hbelow => ?_
      obtain ⟨visit, hvisit, hd⟩ := List.mem_filterMap.mp hbelow
      cases visit with
      | enter => cases hd
      | leave m =>
        cases hd
        have hvisit := (List.mem_cons.mp hvisit).resolve_left (by simp)
        exact hacyclic d (h.within d List.mem_cons_self) ((List.pairwise_cons.mp h.above).1 _ hvisit d rfl)
  sequenced := h.sequenced

/-- The inputs of a node that is entered are visited before it is left. -/
theorem enter (h : g.Search Q (.enter n :: visits) marks left)
    (hinputs : ∀ m d, Q m → g.DrawsOn m d → Q d) (hdirty : (g.cell n).dirty = true) (hnew : marks.isNew n = true) :
    g.Search Q ((g.inputs n).reverse.map .enter ++ .leave n :: visits) (marks.mark n) left := by
  have hentered :
      entered ((g.inputs n).reverse.map .enter ++ .leave n :: visits) left = n :: entered visits left := by
    have hnone : ((g.inputs n).reverse.map Visit.enter).filterMap Visit.leaving? = [] :=
      List.filterMap_eq_nil_iff.mpr fun visit hvisit => by
        obtain ⟨d, -, rfl⟩ := List.mem_map.mp hvisit
        rfl
    rw [entered, List.filterMap_append, hnone]
    rfl
  have habove := List.pairwise_cons.mp h.above
  exact
    { within := fun m hm => by
        have hor : m ∈ g.inputs n ∨ .enter m ∈ visits := by simpa using hm
        exact hor.elim (fun hm => hinputs n m (h.within n List.mem_cons_self) ⟨hdirty, hm⟩) fun hm =>
          h.within m (List.mem_cons_of_mem _ hm)
      above := by
        refine List.pairwise_append.mpr ⟨?_, List.pairwise_cons.mpr habove, fun x hx y hy a ha => ?_⟩
        · exact List.pairwise_map.mpr (List.pairwise_of_forall fun _ _ _ ha => by cases ha)
        · obtain ⟨d, hd, rfl⟩ := List.mem_map.mp hx
          have hd := List.mem_reverse.mp hd
          rcases List.mem_cons.mp hy with rfl | hy
          · cases ha
            exact .single ⟨hdirty, hd⟩
          · exact (habove.1 y hy a ha).tail ⟨hdirty, hd⟩
      marked := fun m hm => by
        rw [hentered] at hm
        rw [Marks.isNew_mark]
        rcases List.mem_cons.mp hm with rfl | hm
        · simp
        · rw [h.marked m hm]
          rfl
      met := fun m hneeds hold => by
        rw [hentered]
        rw [Marks.isNew_mark] at hold
        by_cases hm : m = n
        · exact hm ▸ List.mem_cons_self
        · refine List.mem_cons_of_mem _ (h.met m hneeds ?_)
          simpa [hm] using hold
      nodup := by
        rw [hentered]
        refine List.nodup_cons.mpr ⟨fun hn => ?_, h.nodup⟩
        rw [h.marked n hn] at hnew
        cases hnew
      schedules := by
        refine schedules_enter _ ⟨fun d hd _ => .inr (List.mem_reverse.mpr hd), ?_⟩
        exact Schedules.mono (show g.Schedules (fun m => m ∈ left ∨ m = n) visits from h.schedules)
          fun d _ => Or.imp_left .inl
      sequenced := h.sequenced }

theorem sequenced_settleFrom (h : g.Search Q visits marks left)
    (hinputs : ∀ m d, Q m → g.DrawsOn m d → Q d) (hacyclic : ∀ m, Q m → ¬ TransGen g.DrawsOn m m) :
    g.Sequenced (g.settleFrom visits marks left) := by
  fun_induction settleFrom g visits marks left with
  | case1 => exact h.sequenced
  | case2 marks left n visits ih => exact ih h.leave
  | case3 marks left n visits hnew ih => exact ih (h.enter hinputs (Bool.and_eq_true_iff.mp hnew.1).1 hnew.2)
  | case4 marks left n visits hold ih => exact ih (h.skip hacyclic hold)

end Search

theorem settleFrom_concat_leave (g : Graph) (visits : List Visit) (marks : Marks) (left : List NodeId) (n : NodeId) :
    g.settleFrom (visits ++ [.leave n]) marks left = g.settleFrom visits marks left ++ [n] := by
  fun_induction settleFrom g visits marks left with
  | case1 marks left => simp [settleFrom]
  | case2 marks left m visits ih => rw [List.cons_append, settleFrom, ih]
  | case3 marks left m visits hnew ih =>
    rw [List.cons_append, settleFrom, dif_pos hnew, ← ih, List.append_assoc, List.cons_append]
  | case4 marks left m visits hold ih => rw [List.cons_append, settleFrom, dif_neg hold, ih]

/-- At first nothing has been entered. -/
theorem search_enter (hn : Q n) : g.Search Q [.enter n] (.none g.cells.size) [] where
  within m hm := by
    cases List.mem_singleton.mp hm
    exact hn
  above := List.pairwise_singleton _ _
  marked _ hm := (List.not_mem_nil hm).elim
  met m hneeds hold := by
    have hlt : m < g.cells.size := Nat.lt_of_not_le fun hge => by
      rw [needsWork, cell, Array.getElem?_eq_none hge] at hneeds
      cases hneeds
    simp [Marks.isNew, Marks.none, hlt] at hold
  nodup := List.nodup_nil
  schedules := trivial
  sequenced := ⟨List.nodup_nil, fun before after m d he => by simp at he⟩

/-- The order ends with the inputs of the node itself. -/
theorem sequenced_settleOrder (hn : n < g.cells.size) (hdirty : (g.cell n).dirty = true)
    (hacyclic : ∀ m, ReflTransGen g.DrawsOn n m → ¬ TransGen g.DrawsOn m m) :
    g.Sequenced (g.settleOrder n ++ [n]) := by
  have hnew : (Marks.none g.cells.size).isNew n = true := by simp [Marks.isNew, Marks.none, hn]
  have hinputs : ∀ m d, ReflTransGen g.DrawsOn n m → g.DrawsOn m d → ReflTransGen g.DrawsOn n d :=
    fun m d hm hd => hm.tail hd
  rw [settleOrder, ← settleFrom_concat_leave]
  exact ((search_enter .refl).enter hinputs hdirty hnew).sequenced_settleFrom hinputs hacyclic

end Graph

end FormulaGraph
