import FormulaGraph.Proofs.Settling
import FormulaGraph.Workspace.Change

/-! Edits keep a graph sound as far as everybody has been told of them. A clean node that reads a node which
turns dirty listens to it, so it is among those to be told. -/

namespace FormulaGraph

/-- The nodes among the listeners. -/
def toldBy (listeners : List Listener) : List NodeId :=
  listeners.filterMap fun
    | .node n => some n
    | .callback _ => none

theorem mem_toldBy {listeners : List Listener} {n : NodeId} (h : .node n ∈ listeners) : n ∈ toldBy listeners :=
  List.mem_filterMap.mpr ⟨.node n, h, rfl⟩

theorem Change.ne_ticket {change : Change} {x : Hold} (hx : x ∈ change.holds) (t : Ticket) :
    x ≠ .ticket t := by
  rintro rfl
  cases change <;> simp [Change.holds] at hx

namespace Graph

variable {g g' : Graph} {ext : List Hold} {told : List NodeId} {n m : NodeId} {r : RecordId}
  {replaced : Replaced}

theorem listening_of_dependency (h : g.Accounts ext) (hm : 0 < (g.cell m).owners)
    (hn : n ∈ g.dependencies m) : .node m ∈ g.listening n := by
  rw [← h.sources m hm] at hn
  obtain ⟨t, ht, rfl⟩ := List.mem_map.mp hn
  exact listening_of_registered (h.listens m t hm ht) (decide_eq_true hm)

theorem dirtied_sound (h : g.Sound ext (n :: told)) :
    (g.dirtied n).2.Sound ext (toldBy (g.dirtied n).1 ++ told) := by
  rw [dirtied]
  dsimp only
  have hnodes : ∀ m, (g.touch n).node m = g.node m := cell_modifyCell_congr Cell.node (by exact fun _ => rfl)
  have howners : ∀ m, ((g.touch n).cell m).owners = (g.cell m).owners :=
    cell_modifyCell_congr Cell.owners (by exact fun _ => rfl)
  have hcache : ∀ m, ((g.touch n).cell m).cache = (g.cell m).cache :=
    cell_modifyCell_congr Cell.cache (by exact fun _ => rfl)
  have hother : ∀ m, m ≠ n → (g.touch n).cell m = g.cell m := fun m hm => cell_modifyCell_of_ne hm
  have haccounts : (g.touch n).Accounts ext :=
    h.accounts.modifyCell (by exact fun _ => rfl) (by exact fun _ => rfl) (by exact fun _ => rfl)
  have hne : ∀ m, 0 < ((g.touch n).cell m).owners → ((g.touch n).cell m).dirty = false → m ≠ n := by
    rintro m hm hclean rfl
    rw [howners] at hm
    rw [touch, cell_modifyCell_self (lt_size_of_owners_pos hm)] at hclean
    cases hclean
  refine ⟨haccounts, fun m hm hclean => ?_, fun m hm hclean hnot => ?_⟩
  · have hmn := hne m hm hclean
    rw [hother m hmn] at hm hclean ⊢
    exact h.coherent.cached m hm hclean
  · have hmn := hne m hm hclean
    rw [List.mem_append, not_or] at hnot
    have hdependency : ∀ d ∈ g.dependencies m, d ≠ n := by
      rintro d hd rfl
      refine hnot.1 (mem_toldBy (listening_of_dependency haccounts hm ?_))
      rw [dependencies, hnodes]
      exact hd
    have hfresh := h.coherent.fresh m (howners m ▸ hm) (hother m hmn ▸ hclean)
      (by simpa [hmn] using hnot.2)
    obtain ⟨v, hv, hgiven⟩ := hfresh.value
    refine ⟨fun d hd => ?_, v, (hcache m).trans hv, ?_⟩
    · rw [dependencies, hnodes] at hd
      rw [hother d (hdependency d hd)]
      exact hfresh.clean d hd
    · rw [given?_eq (hnodes m) fun d _ => hcache d]
      exact hgiven

/-- One that is dirty already has told its listeners before. -/
theorem tell_sound (h : g.Sound ext (n :: told)) : (g.tell n).2.Sound ext (toldBy (g.tell n).1 ++ told) := by
  rw [tell]
  by_cases hlive : (g.isLive n && !(g.cell n).dirty) = true
  · rw [if_pos hlive]
    exact dirtied_sound h
  · rw [if_neg hlive]
    refine ⟨h.accounts, h.coherent.cached, fun m hm hclean hnot => h.coherent.fresh m hm hclean ?_⟩
    intro hmem
    rcases List.mem_cons.mp hmem with rfl | hmem
    · exact hlive (by rw [isLive, hclean, decide_eq_true hm]; rfl)
    · exact hnot hmem

theorem Sound.also (h : g.Sound ext told) (n : NodeId) : g.Sound ext (n :: told) :=
  ⟨h.accounts, h.coherent.mono fun _ hm => List.mem_cons_of_mem _ hm⟩

/-- What the listeners are told of leaves nobody else wrong. -/
def EditSound (ext : List Hold) (told : List NodeId) : Edited (List Listener × Graph) → Prop
  | .ok (listeners, g) => g.Sound ext (toldBy listeners ++ told)
  | .error _ => True

theorem setInput_sound (h : g.Sound ext told) (n : NodeId) (value : Value) :
    EditSound ext told (g.setInput n value) := by
  rw [setInput]
  cases hnode : g.node n with
  | input old =>
    dsimp only
    split
    · exact h
    · exact dirtied_sound ((h.also n).setNode (by rw [hnode]; rfl) (by rw [dependencies, hnode]; rfl)
        fun _ _ => List.mem_cons_self)
  | constant | calculation | expression => trivial

theorem tree?_edit (source : Source) (text : String) : (source.edit text).tree? = source.tree? := by
  cases source <;> rfl

theorem setFormula_sound (h : g.Sound ext told) (n : NodeId) (text : String) :
    EditSound ext told (g.setFormula n text) := by
  rw [setFormula]
  cases hnode : g.node n with
  | expression scope source =>
    dsimp only
    split
    · exact h
    · refine dirtied_sound ((h.also n).setNode ?_ ?_ fun _ _ => List.mem_cons_self)
      · rw [hnode, Node.tickets, tree?_edit, Node.tickets]
      · rw [dependencies, hnode, Node.dependencies, tree?_edit, Node.dependencies]
  | constant | input | calculation => trivial

theorem checkFormula_sound (h : g.Sound ext told) (n : NodeId) (text : String) :
    (g.checkFormula n text).2.Sound ext told := by
  rw [checkFormula]
  cases g.node n with
  | expression scope source =>
    have hbuild := buildTree_sound readNode_reads h n scope text
    dsimp only
    generalize (buildTree readNode n scope text).run.run g = built at hbuild ⊢
    rcases built with ⟨e | root, g'⟩
    · exact hbuild.1
    · exact hbuild.1.release_node
  | constant | input | calculation => exact h

/-- The roots that are held for a check. -/
def Replaced.holds (replaced : Replaced) : List Hold := replaced.map (.node ·.2)

theorem countP_replace (replaced : Replaced) (n : NodeId) (p : Hold → Bool) :
    ((replaced.lookup n).toList.map Hold.node).countP p +
      (Replaced.holds (replaced.filter (·.1 ≠ n))).countP p ≤ (Replaced.holds replaced).countP p := by
  induction replaced with
  | nil => simp [Replaced.holds]
  | cons entry replaced ih =>
    obtain ⟨m, root⟩ := entry
    have hcons : (Replaced.holds ((m, root) :: replaced)).countP p =
        (Replaced.holds replaced).countP p + if p (.node root) = true then 1 else 0 := List.countP_cons
    rw [hcons, List.lookup_cons]
    by_cases he : n = m
    · subst he
      have hle : (Replaced.holds (replaced.filter (·.1 ≠ n))).countP p ≤
          (Replaced.holds replaced).countP p :=
        ((List.filter_sublist).map _).countP_le
      have hdrop : ((n, root) :: replaced).filter (·.1 ≠ n) = replaced.filter (·.1 ≠ n) :=
        List.filter_cons_of_neg (by simp)
      have hone : ((some root).toList.map Hold.node).countP p = if p (.node root) = true then 1 else 0 := by
        simp [List.countP_cons]
      rw [hdrop, beq_self_eq_true]
      dsimp only
      omega
    · have hbeq : (n == m) = false := beq_eq_false_iff_ne.mpr he
      have hkeep : Replaced.holds (((m, root) :: replaced).filter (·.1 ≠ n)) =
          .node root :: Replaced.holds (replaced.filter (·.1 ≠ n)) := by
        rw [List.filter_cons_of_pos (by simpa using Ne.symm he)]
        rfl
      rw [hbeq, hkeep, List.countP_cons]
      dsimp only
      omega

/-- A new tree takes the place of the one that the expression may have had. -/
theorem Sound.replace {root : NodeId} (h : g.Sound (.node root :: (Replaced.holds replaced ++ ext)) told)
    (n : NodeId) : (g.release ((replaced.lookup n).toList.map .node)).Sound
      (Replaced.holds ((n, root) :: replaced.filter (·.1 ≠ n)) ++ ext) told := by
  refine Sound.release (h.mono fun p => ?_)
  have := countP_replace replaced n p
  simp only [Replaced.holds, List.countP_append, List.countP_cons, List.map_cons, List.cons_append] at this ⊢
  omega

/-- The root of a tree is held for whoever has it made. -/
theorem Sound.of_parse {root : NodeId} {text : String} (h : g.Sound ext told) (hs : g.scopeIsLive r = true)
    (hparse : g.parse r text = (.ok root, g')) : g'.Sound (.node root :: ext) told ∧ g.Grows g' := by
  have hparsed := parse_sound readNode_reads h hs text
  rw [parse] at hparse
  rw [hparse] at hparsed
  exact hparsed

theorem Sound.release_replaced (h : g.Sound (Replaced.holds replaced ++ ext) told) :
    (g.release (replaced.map (.node ·.2))).Sound ext told :=
  h.release

theorem buildAll_sound (edits : List (NodeId × String)) (h : g.Sound (Replaced.holds replaced ++ ext) told) :
    match g.buildAll replaced edits with
    | (.ok replaced, g') => g'.Sound (Replaced.holds replaced ++ ext) told
    | (.error _, g') => g'.Sound ext told := by
  fun_induction buildAll g replaced edits with
  | case1 => exact h
  | case2 g replaced n text edits scope source hnode hs root g₁ hparse g₂ ih =>
    exact ih ((h.of_parse hs hparse).1.replace n)
  | case3 g replaced n text edits scope source hnode hs e g₁ hparse =>
    have hparsed := parse_sound readNode_reads h hs text
    rw [parse] at hparse
    rw [hparse] at hparsed
    exact hparsed.1.release_replaced
  | case4 => exact h.release_replaced
  | case5 => exact h.release_replaced

theorem checkFormulas_sound (h : g.Sound ext told) (edits : List (NodeId × String)) :
    (g.checkFormulas edits).2.Sound ext told := by
  have hnone : g.Sound (Replaced.holds [] ++ ext) told := h
  have hbuilt := buildAll_sound edits hnone
  rw [checkFormulas]
  generalize g.buildAll [] edits = built at hbuilt ⊢
  rcases built with ⟨fault | replaced, g'⟩
  · exact hbuilt
  · exact hbuilt.release_replaced

theorem Sound.retain_record (h : g.Sound ext told) (hr : 0 < (g.record r).owners) :
    (g.retain (.record r)).Sound (.record r :: ext) told :=
  ⟨h.accounts.retain_record hr, h.coherent.of_core (fun _ => rfl) fun _ hm => hm⟩

/-- Whatever is held can be held once more. -/
theorem Sound.retainAll {holds : List Hold} (h : g.Sound ext told)
    (hmem : ∀ x ∈ holds, x ∈ ext ∧ ∀ t, x ≠ .ticket t) : (g.retainAll holds).Sound (holds ++ ext) told := by
  rw [Graph.retainAll]
  induction holds generalizing g ext with
  | nil => exact h
  | cons x holds ih =>
    obtain ⟨hx, hticket⟩ := hmem x List.mem_cons_self
    have hfirst : (g.retain x).Sound (x :: ext) told := by
      cases x with
      | node n => exact h.retain_node (h.accounts.node_live hx)
      | record r => exact h.retain_record (h.accounts.record_live hx)
      | ticket t => exact (hticket t rfl).elim
    refine (ih hfirst fun y hy => ?_).perm List.perm_middle
    obtain ⟨hy', hne⟩ := hmem y (List.mem_cons_of_mem _ hy)
    exact ⟨List.mem_cons_of_mem _ hy', hne⟩

theorem read_sound (h : g.Sound ext told) (hn : g.Anchored ext n) : (g.read n).2.Sound ext told :=
  (readNode_reads h hn).1

/-- A change that is made holds its nodes. -/
def ChangeSound (ext : List Hold) (told : List NodeId) : Edited Change × Graph → Prop
  | (.ok change, g) => g.Sound (change.holds ++ ext) told
  | (.error _, g) => g.Sound ext told

theorem formulaChange_sound (h : g.Sound ext told) {edits : List (NodeId × String)}
    (hedits : ∀ e ∈ edits, .node e.1 ∈ ext) : ChangeSound ext told (g.formulaChange edits) := by
  have hchecked := checkFormulas_sound h edits
  rw [formulaChange]
  generalize g.checkFormulas edits = checked at hchecked ⊢
  rcases checked with ⟨fault | ⟨⟩, g'⟩
  · exact hchecked
  · refine hchecked.retainAll fun x hx => ⟨?_, Change.ne_ticket hx⟩
    obtain ⟨e, he, rfl⟩ := List.mem_map.mp hx
    obtain ⟨edit, hedit, rfl⟩ := List.mem_map.mp he
    exact hedits edit hedit

theorem valueChange_sound (h : g.Sound ext told) (hn : .node n ∈ ext) (new : Value) :
    ChangeSound ext told (g.valueChange n new) := by
  have hread := read_sound h (.outside hn)
  rw [valueChange]
  split
  · generalize g.read n = r at hread ⊢
    rcases r with ⟨e | old, g'⟩
    · exact hread
    · refine hread.retainAll fun x hx => ⟨?_, Change.ne_ticket hx⟩
      rw [List.mem_singleton.mp hx]
      exact hn
  · exact h

end Graph

end FormulaGraph
