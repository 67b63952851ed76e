import FormulaGraph.Proofs.Lasting
import FormulaGraph.Proofs.Running

/-! What holds of every state that is reached. A property of what reads what, of who listens and of what is being
worked out is kept by each step if the moves of a read keep it. -/

namespace FormulaGraph

section

open FormulaGraph.Graph

/-- A property of nothing but the dependencies and of which nodes are being worked out, kept when a node is
added or an expression comes to read another tree. -/
structure Endures (P : List NodeId → Graph → Prop) : Prop where
  shape {busy : List NodeId} {g g' : Graph} : P busy g → g'.cells.size = g.cells.size →
    (∀ m, g'.dependencies m = g.dependencies m) →
      (∀ m, (g'.cell m).evaluating = (g.cell m).evaluating) → P busy g'
  add {busy : List NodeId} {g : Graph} {node : Node} (cache : Option Value) : P busy g →
    (∀ d ∈ node.dependencies, d < g.cells.size) → P busy (g.addCell node cache).2
  start {busy : List NodeId} {g : Graph} (n : NodeId) :
    P busy g → P (n :: busy) (g.modifyCell n fun c => { c with evaluating := true })
  finish {busy : List NodeId} {g : Graph} {n : NodeId} :
    P (n :: busy) g → P busy (g.modifyCell n fun c => { c with evaluating := false })
  install {busy : List NodeId} {g : Graph} {n : NodeId} {scope : RecordId} {tree : Tree} :
    P busy g → tree.root < g.cells.size → ¬ Relation.ReflTransGen g.Uses tree.root n →
      P busy (g.modifyCell n fun c => { c with node := .expression scope (.built tree) })

/-- Without the text that waits to be built. -/
def Source.gist : Source → Source
  | .unbuilt _ => .unbuilt ""
  | .built tree | .edited _ tree => .built tree

/-- Without values and edits. -/
def Node.gist : Node → Node
  | .constant _ | .input _ => .constant (.bool false)
  | .calculation operation operands offset tickets => .calculation operation operands offset tickets
  | .expression scope source => .expression scope source.gist

theorem Source.tree?_gist (source : Source) : source.gist.tree? = source.tree? := by cases source <;> rfl

theorem Source.gist_edit (source : Source) (text : String) : (source.edit text).gist = source.gist := by
  cases source <;> rfl

theorem Node.dependencies_gist (node : Node) : node.gist.dependencies = node.dependencies := by
  cases node with
  | expression scope source => rw [gist, dependencies, dependencies, source.tree?_gist]
  | constant | input | calculation => rfl

theorem Node.tickets_gist (node : Node) : node.gist.tickets = node.tickets := by
  cases node with
  | expression scope source => rw [gist, tickets, tickets, source.tree?_gist]
  | constant | input | calculation => rfl

theorem Node.frame_gist (node : Node) : node.gist.frame = node.frame := by cases node <;> rfl

/-- The same nodes but for inputs and edits, with fewer who live and listen. -/
structure Graph.Wanes (g g' : Graph) : Prop extends g.Thins g' where
  size : g'.cells.size = g.cells.size
  gist (m : NodeId) : (g'.node m).gist = (g.node m).gist
  made (m : NodeId) : (g.node m).isMade = true → g'.node m = g.node m
  evaluating (m : NodeId) : (g'.cell m).evaluating = (g.cell m).evaluating

theorem Graph.Wanes.dependencies {g g' : Graph} (h : g.Wanes g') (m : NodeId) :
    g'.dependencies m = g.dependencies m := by
  rw [Graph.dependencies, ← Node.dependencies_gist, h.gist, Node.dependencies_gist, Graph.dependencies]

theorem Graph.Wanes.tickets {g g' : Graph} (h : g.Wanes g') (m : NodeId) :
    (g'.node m).tickets = (g.node m).tickets := by
  rw [← Node.tickets_gist, h.gist, Node.tickets_gist]

/-- Kept whatever is done. Callbacks have their keys from the number of watches so far. -/
structure Outlasts (P : Nat → List NodeId → Graph → Prop) : Prop where
  wanes {k : Nat} {busy : List NodeId} {g g' : Graph} : P k busy g → g.Wanes g' → P k busy g'
  /-- A node is added that reads nothing. -/
  leaf {k : Nat} {busy : List NodeId} {g : Graph} {node : Node} (cache : Option Value) : P k busy g →
    node.dependencies = [] → node.tickets = [] → P k busy (g.addCell node cache).2
  calculation {k : Nat} {busy : List NodeId} {g : Graph} {operands : List NodeId} (operation : Operation)
    (offset : Nat) : P k busy g → (∀ d ∈ operands, d < g.cells.size) →
      P k busy (g.addCalculation operation operands offset).2
  start {k : Nat} {busy : List NodeId} {g : Graph} (n : NodeId) :
    P k busy g → P k (n :: busy) (g.modifyCell n fun c => { c with evaluating := true })
  finish {k : Nat} {busy : List NodeId} {g : Graph} {n : NodeId} :
    P k (n :: busy) g → P k busy (g.modifyCell n fun c => { c with evaluating := false })
  install {k : Nat} {busy : List NodeId} {g : Graph} {ext : List Hold} {n root : NodeId} {scope : RecordId}
    {source : Source} {text : String} :
    P k busy g → g.Accounts ext → 0 < (g.cell n).owners → g.node n = .expression scope source →
      source.pending? = some text → g.BuiltFrom scope text root → root < g.cells.size →
      ¬ Relation.ReflTransGen g.Uses root n → P k busy ((installTree n scope text root source.tree?).run g).2
  watch {k : Nat} {busy : List NodeId} {g : Graph} (n : NodeId) :
    P k busy g → P (k + 1) busy (g.subscribe n (.callback k)).2

/-- What waits to be built is dirty. -/
def Graph.Awaits (g : Graph) : Prop := ∀ m, (g.node m).isPending = true → (g.cell m).dirty = true

/-- Kept whatever is done, if `A` holds of the graph when a formula is read or built. -/
structure Outlives (A : Graph → Prop) (P : Nat → List NodeId → Graph → Prop) : Prop where
  grows {g g' : Graph} {ext : List Hold} {told : List NodeId} : A g → g.Sound ext told → g.Grows g' → A g'
  wanes {k : Nat} {busy : List NodeId} {g g' : Graph} : P k busy g → g.Wanes g' → (g.Awaits → g'.Awaits) →
    P k busy g'
  leaf {k : Nat} {busy : List NodeId} {g : Graph} {node : Node} (cache : Option Value) : P k busy g →
    node.dependencies = [] → node.tickets = [] → (node.isPending = true → cache = none) →
      P k busy (g.addCell node cache).2
  watch {k : Nat} {busy : List NodeId} {g : Graph} (n : NodeId) :
    P k busy g → P (k + 1) busy (g.subscribe n (.callback k)).2
  read {k : Nat} {busy : List NodeId} {g : Graph} {ext : List Hold} {told : List NodeId} {n : NodeId} :
    A g → P k busy g → g.Sound ext told → g.Anchored ext n → P k busy (g.read n).2
  parse {k : Nat} {busy : List NodeId} {g : Graph} {ext : List Hold} {told : List NodeId} {r : RecordId}
    (text : String) : A g → P k busy g → g.Sound ext told → g.scopeIsLive r = true → P k busy (g.parse r text).2

theorem dependencies_setNode {g : Graph} {n : NodeId} {node : Node} (h : node.dependencies = g.dependencies n)
    (m : NodeId) : (g.modifyCell n fun c => { c with node }).dependencies m = g.dependencies m := by
  rw [dependencies, Graph.node, cell_modifyCell]
  split
  next hm =>
    rw [hm.1]
    exact h
  · rfl

theorem gist_setNode {g : Graph} {n : NodeId} {node : Node} (h : node.gist = (g.node n).gist)
    (m : NodeId) : ((g.modifyCell n fun c => { c with node }).node m).gist = (g.node m).gist := by
  rw [Graph.node, cell_modifyCell]
  split
  next hm =>
    rw [hm.1]
    exact h
  · rfl

variable {P : List NodeId → Graph → Prop} {Q : Nat → List NodeId → Graph → Prop} {k : Nat} {busy : List NodeId}
  {g g' : Graph} {ext holds : List Hold} {told : List NodeId} {n : NodeId} {r : RecordId}

theorem alike_dirtied : g.Alike (g.dirtied n).2 :=
  alike_modifyCell (by exact fun _ => rfl) (by exact fun _ => rfl)

theorem alike_tell : g.Alike (g.tell n).2 := by
  rw [Graph.tell]
  split
  · exact alike_dirtied
  · exact .refl g

namespace Graph

theorem Fades.wanes (h : g.Fades g') : g.Wanes g' where
  toThins := h.toThins
  size := h.size
  gist m := congrArg Node.gist (h.node m)
  made m _ := h.node m
  evaluating := h.evaluating

theorem wanes_of_cells (h : g'.cells = g.cells) : g.Wanes g' := by
  have hcell : ∀ m, g'.cell m = g.cell m := fun m => by rw [cell, cell, h]
  exact
    { toThins := .of_owners (fun m => congrArg Cell.listeners (hcell m)) fun m => by rw [hcell]
      size := congrArg Array.size h
      gist := fun m => congrArg (·.node.gist) (hcell m)
      made := fun m _ => congrArg Cell.node (hcell m)
      evaluating := fun m => congrArg Cell.evaluating (hcell m) }

theorem Wanes.trans {g'' : Graph} (h : g.Wanes g') (h' : g'.Wanes g'') : g.Wanes g'' where
  listeners t l hr := h.listeners t l (h'.listeners t l hr)
  live m hm := h.live m (h'.live m hm)
  leaves m t l hm hgone ht hsource hr := by
    by_cases hm' : 0 < (g'.cell m).owners
    · exact h'.leaves m t l hm' hgone (h.tickets m ▸ ht) hsource hr
    · exact h.leaves m t l hm (Nat.eq_zero_of_not_pos hm') ht (h'.live _ hsource) (h'.listeners t l hr)
  size := h'.size.trans h.size
  gist m := (h'.gist m).trans (h.gist m)
  made m hmade := by
    have hsame := h.made m hmade
    rw [h'.made m (by rwa [hsame]), hsame]
  evaluating m := (h'.evaluating m).trans (h.evaluating m)

theorem wanes_setNode {node : Node} (hnode : (g.node n).isMade = false) (h : node.gist = (g.node n).gist) :
    g.Wanes (g.modifyCell n fun c => { c with node }) where
  toThins := thins_modifyCell (by exact fun _ => rfl) (by exact fun _ => rfl)
  size := size_modifyCell
  gist := gist_setNode h
  made m hmade := by
    have hne : m ≠ n := by
      rintro rfl
      rw [hnode] at hmade
      cases hmade
    rw [Graph.node, cell_modifyCell_of_ne hne, Graph.node]
  evaluating := cell_modifyCell_congr Cell.evaluating (by exact fun _ => rfl)

theorem wanes_release : g.Wanes (g.release holds) where
  toThins := thins_release
  size := size_release
  gist m := congrArg (fun core => core.1.gist) (core_release m)
  made m _ := congrArg (·.1) (core_release m)
  evaluating m := congrArg (·.2.2.2) (core_release m)

theorem Awaits.of_eq (h : g.Awaits) (hnode : ∀ m, g'.node m = g.node m)
    (hdirty : ∀ m, (g.cell m).dirty = true → (g'.cell m).dirty = true) : g'.Awaits :=
  fun m hp => hdirty m (h m (hnode m ▸ hp))

theorem awaits_of_cells (hcells : g'.cells = g.cells) (h : g.Awaits) : g'.Awaits := by
  have hcell : ∀ m, g'.cell m = g.cell m := fun m => by rw [cell, cell, hcells]
  exact h.of_eq (fun m => congrArg Cell.node (hcell m)) fun m hd => hcell m ▸ hd

theorem awaits_retain (n : NodeId) (h : g.Awaits) : (g.retain (.node n)).Awaits :=
  h.of_eq (cell_modifyCell_congr Cell.node (by exact fun _ => rfl)) fun m hd =>
    (cell_modifyCell_congr Cell.dirty (by exact fun _ => rfl) m).trans hd

theorem awaits_release (holds : List Hold) (h : g.Awaits) : (g.release holds).Awaits :=
  h.of_eq (fun m => congrArg (·.1) (core_release m)) fun m hd => (congrArg (·.2.2.1) (core_release m)).trans hd

theorem dirty_dirtied (n : NodeId) {m : NodeId} (hd : (g.cell m).dirty = true) :
    ((g.dirtied n).2.cell m).dirty = true := by
  rw [dirtied, touch, cell_modifyCell]
  split
  · rfl
  · exact hd

theorem awaits_dirtied (n : NodeId) (h : g.Awaits) : (g.dirtied n).2.Awaits :=
  h.of_eq (cell_modifyCell_congr Cell.node (by exact fun _ => rfl)) fun _ => dirty_dirtied n

theorem awaits_tell (n : NodeId) (h : g.Awaits) : (g.tell n).2.Awaits := by
  rw [Graph.tell]
  split
  · exact awaits_dirtied n h
  · exact h

/-- An edited node is made dirty. -/
theorem awaits_edited (n : NodeId) (node : Node) (h : g.Awaits) :
    ((g.modifyCell n fun c => { c with node }).dirtied n).2.Awaits := by
  intro m hp
  by_cases hm : m = n
  · subst hm
    have hlt : m < g.cells.size := by
      refine Nat.lt_of_not_le fun hge => ?_
      rw [dirtied, touch, Graph.node, cell, modifyCell_of_size_le hge, modifyCell_of_size_le hge,
        Array.getElem?_eq_none hge] at hp
      cases hp
    rw [dirtied, touch, cell_modifyCell_self (by rwa [size_modifyCell])]
  · rw [Graph.node, dirtied, touch, cell_modifyCell_of_ne hm, cell_modifyCell_of_ne hm] at hp
    rw [dirtied, touch, cell_modifyCell_of_ne hm, cell_modifyCell_of_ne hm]
    exact h m hp

theorem fades_dirtied : g.Fades (g.dirtied n).2 :=
  fades_modifyCell (by exact fun _ => rfl) (by exact fun _ => rfl) (by exact fun _ => rfl) (by exact fun _ => rfl)

theorem fades_tell : g.Fades (g.tell n).2 := by
  rw [Graph.tell]
  split
  · exact fades_dirtied
  · exact ⟨.refl g, .of_owners (fun _ => rfl) fun _ => .rfl⟩

end Graph

namespace Endures

theorem alike (hP : Endures P) (h : P busy g) (ha : g.Alike g') : P busy g' :=
  hP.shape h ha.size (fun m => congrArg Node.dependencies (ha.node m)) ha.evaluating

theorem setNode (hP : Endures P) (h : P busy g) {node : Node} (hnode : node.dependencies = g.dependencies n) :
    P busy (g.modifyCell n fun c => { c with node }) :=
  hP.shape h size_modifyCell (dependencies_setNode hnode)
    (cell_modifyCell_congr Cell.evaluating (by exact fun _ => rfl))

theorem lasts (hP : Endures P) : Lasts P where
  alike := hP.alike
  add cache h _ hd := hP.add cache h hd
  start := hP.start
  finish := hP.finish
  takeBack h hnode := hP.setNode h (by rw [dependencies, hnode]; rfl)
  install h _ _ _ hroot hfree := hP.install h hroot hfree

/-- What does not depend on who listens. -/
theorem outlasts (hP : Endures P) : Outlasts fun _ => P where
  wanes h hw := hP.shape h hw.size hw.dependencies hw.evaluating
  leaf cache h hnode _ := hP.add cache h fun d hd => by
    rw [hnode] at hd
    cases hd
  calculation := hP.lasts.abides.calculation
  start := hP.start
  finish := hP.finish
  install := hP.lasts.abides.install
  watch n h := hP.alike h (alike_subscribe _)

end Endures

namespace Outlasts

theorem abides (hP : Outlasts Q) (k : Nat) : Abides (Q k) where
  fades h hf := hP.wanes h hf.wanes
  constant v h := hP.leaf (some v) h rfl rfl
  calculation := hP.calculation
  start := hP.start
  finish := hP.finish
  takeBack h hnode := hP.wanes h (wanes_setNode (by rw [hnode]; rfl) (by rw [hnode]; rfl))
  install := hP.install

theorem read (hP : Outlasts Q) (hg : Q k busy g) (h : g.Sound ext told) (hn : g.Anchored ext n) :
    Q k busy (g.read n).2 :=
  readNode_keeps (hP.abides k) h hn hg

theorem parse (hP : Outlasts Q) (hg : Q k busy g) (h : g.Sound ext told) (hr : g.scopeIsLive r = true)
    (text : String) : Q k busy (g.parse r text).2 :=
  parse_lasts (hP.abides k) readNode_reads (readNode_keeps (hP.abides k)) h hr hg text

/-- Whatever holds of the graph meanwhile. -/
theorem outlives (hP : Outlasts Q) : Outlives (fun _ => True) Q where
  grows _ _ _ := trivial
  wanes h hw _ := hP.wanes h hw
  leaf cache h hdependencies htickets _ := hP.leaf cache h hdependencies htickets
  watch := hP.watch
  read _ := hP.read
  parse text _ hg h hr := hP.parse hg h hr text

end Outlasts

namespace Outlives

variable {A : Graph → Prop}

theorem release (hP : Outlives A Q) (h : Q k busy g) (holds : List Hold) : Q k busy (g.release holds) :=
  hP.wanes h wanes_release (awaits_release holds)

theorem retain (hP : Outlives A Q) (h : Q k busy g) (hold : Hold)
    (hlive : ∀ n, hold = .node n → 0 < (g.cell n).owners) : Q k busy (g.retain hold) := by
  cases hold with
  | node n => exact hP.wanes h (fades_retain (hlive n rfl)).wanes (awaits_retain n)
  | record r => exact hP.wanes h (wanes_of_cells rfl) (awaits_of_cells rfl)
  | ticket t => exact h

theorem retainAll (hP : Outlives A Q) (h : Q k busy g) {holds : List Hold}
    (hlive : ∀ n, Hold.node n ∈ holds → 0 < (g.cell n).owners) : Q k busy (g.retainAll holds) := by
  rw [Graph.retainAll]
  induction holds generalizing g with
  | nil => exact h
  | cons hold holds ih =>
    refine ih (hP.retain h hold fun n he => hlive n (he ▸ List.mem_cons_self)) fun n hn => ?_
    exact live_retain (hlive n (List.mem_cons_of_mem _ hn))

theorem unsubscribe (hP : Outlives A Q) (h : Q k busy g) (t : Ticket) : Q k busy (g.unsubscribe t) := by
  have hreleased := hP.release h [.ticket t]
  rwa [Graph.release, Graph.release] at hreleased

theorem addRecord (hP : Outlives A Q) (h : Q k busy g) (parent : Option RecordId) :
    Q k busy (g.addRecord parent).2 :=
  hP.wanes (hP.retainAll h fun n hn => by
    obtain ⟨r, -, he⟩ := List.mem_map.mp hn
    cases he) (wanes_of_cells rfl) (awaits_of_cells rfl)

theorem setMembers (hP : Outlives A Q) (h : Q k busy g) (r : RecordId) (f : Record → Record) :
    Q k busy (g.modifyRecord r f) :=
  hP.wanes h (wanes_of_cells rfl) (awaits_of_cells rfl)

theorem insert (hP : Outlives A Q) (h : Q k busy g) (r : RecordId) (name : String) (member : Member) :
    Q k busy (g.insert r name member) :=
  hP.release (hP.setMembers h r _) _

theorem remove (hP : Outlives A Q) (h : Q k busy g) (r : RecordId) (name : String) : Q k busy (g.remove r name) :=
  hP.release (hP.setMembers h r _) _

theorem addExpressions (hP : Outlives A Q) (h : Q k busy g) (r : RecordId) (stem formula : String) (count : Nat) :
    Q k busy (Workspace.addExpressions g r stem formula count) := by
  rw [Workspace.addExpressions]
  induction List.range count generalizing g with
  | nil => exact h
  | cons i rest ih => exact ih (hP.insert (hP.leaf none h rfl rfl fun _ => rfl) r _ _)

theorem dirtied (hP : Outlives A Q) (h : Q k busy g) (n : NodeId) : Q k busy (g.dirtied n).2 :=
  hP.wanes h fades_dirtied.wanes (awaits_dirtied n)

theorem tell (hP : Outlives A Q) (h : Q k busy g) (n : NodeId) : Q k busy (g.tell n).2 :=
  hP.wanes h fades_tell.wanes (awaits_tell n)

theorem setInput (hP : Outlives A Q) (h : Q k busy g) {value : Value} {listeners : List Listener}
    (he : g.setInput n value = .ok (listeners, g')) : Q k busy g' := by
  rw [Graph.setInput] at he
  cases hnode : g.node n with
  | input old =>
    rw [hnode] at he
    dsimp only at he
    split at he
    · cases he
      exact h
    · cases he
      exact hP.wanes h ((wanes_setNode (by rw [hnode]; rfl) (by rw [hnode]; rfl)).trans fades_dirtied.wanes)
        (awaits_edited n _)
  | constant | calculation | expression =>
    rw [hnode] at he
    cases he

theorem setFormula (hP : Outlives A Q) (h : Q k busy g) {text : String} {listeners : List Listener}
    (he : g.setFormula n text = .ok (listeners, g')) : Q k busy g' := by
  rw [Graph.setFormula] at he
  cases hnode : g.node n with
  | expression scope source =>
    rw [hnode] at he
    dsimp only at he
    split at he
    · cases he
      exact h
    · cases he
      refine hP.wanes h ((wanes_setNode (by rw [hnode]; rfl) ?_).trans fades_dirtied.wanes) (awaits_edited n _)
      rw [hnode, Node.gist, Source.gist_edit, Node.gist]
  | constant | input | calculation =>
    rw [hnode] at he
    cases he

theorem buildTree (hP : Outlives A Q) (ha : A g) (hg : Q k busy g) (h : g.Sound ext told) (n : NodeId)
    (scope : RecordId) (text : String) : Q k busy ((FormulaGraph.buildTree readNode n scope text).run.run g).2 := by
  rw [run_buildTree]
  split
  next hs =>
    have hparsed := hP.parse text ha hg h hs
    rw [Graph.parse] at hparsed
    generalize ((graphBuilder readNode).parse scope text).run g = parsed at hparsed ⊢
    obtain ⟨e | root, g'⟩ := parsed
    · exact hparsed
    · dsimp only
      split
      · exact hP.release hparsed _
      · exact hparsed
  next => exact hg

theorem checkFormula (hP : Outlives A Q) (ha : A g) (hg : Q k busy g) (h : g.Sound ext told) (n : NodeId)
    (text : String) : Q k busy (g.checkFormula n text).2 := by
  rw [Graph.checkFormula]
  cases g.node n with
  | expression scope source =>
    have hbuild := hP.buildTree ha hg h n scope text
    dsimp only
    generalize (FormulaGraph.buildTree readNode n scope text).run.run g = built at hbuild ⊢
    rcases built with ⟨e | root, g'⟩
    · exact hbuild
    · exact hP.release hbuild _
  | constant | input | calculation => exact hg

theorem buildAll (hP : Outlives A Q) {replaced : Replaced} (edits : List (NodeId × String)) (ha : A g)
    (hg : Q k busy g) (h : g.Sound (Replaced.holds replaced ++ ext) told) :
    Q k busy (g.buildAll replaced edits).2 := by
  fun_induction Graph.buildAll g replaced edits with
  | case1 => exact hg
  | case2 g replaced n text edits scope source hnode hs root g₁ hparse g₂ ih =>
    have hlasts := hP.parse text ha hg h hs
    rw [hparse] at hlasts
    obtain ⟨hsound, hgrows⟩ := h.of_parse hs hparse
    have hreleased : g₁.Grows g₂ := grows_release (by simp [Hold.isRecord])
    exact ih (hP.grows ha h (hgrows.trans hreleased)) (hP.release hlasts _) (hsound.replace n)
  | case3 g replaced n text edits scope source hnode hs e g₁ hparse =>
    have hlasts := hP.parse text ha hg h hs
    rw [hparse] at hlasts
    exact hP.release hlasts _
  | case4 => exact hP.release hg _
  | case5 => exact hP.release hg _

theorem checkFormulas (hP : Outlives A Q) (ha : A g) (hg : Q k busy g) (h : g.Sound ext told)
    (edits : List (NodeId × String)) : Q k busy (g.checkFormulas edits).2 := by
  have hnone : g.Sound (Replaced.holds [] ++ ext) told := h
  have hbuilt := hP.buildAll edits ha hg hnone
  rw [Graph.checkFormulas]
  generalize g.buildAll [] edits = built at hbuilt ⊢
  rcases built with ⟨fault | replaced, g'⟩
  · exact hbuilt
  · exact hP.release hbuilt _

theorem formulaChange (hP : Outlives A Q) (ha : A g) (hg : Q k busy g) (h : g.Sound ext told)
    {edits : List (NodeId × String)} (hedits : ∀ e ∈ edits, .node e.1 ∈ ext) :
    Q k busy (g.formulaChange edits).2 := by
  have hsound := checkFormulas_sound h edits
  have hchecked := hP.checkFormulas ha hg h edits
  rw [Graph.formulaChange]
  generalize g.checkFormulas edits = checked at hchecked hsound ⊢
  rcases checked with ⟨fault | ⟨⟩, g'⟩
  · exact hchecked
  · refine hP.retainAll hchecked fun n hn => hsound.accounts.node_live ?_
    obtain ⟨e, he, hen⟩ := List.mem_map.mp hn
    obtain ⟨edit, hedit, rfl⟩ := List.mem_map.mp he
    exact hen ▸ hedits edit hedit

theorem valueChange (hP : Outlives A Q) (ha : A g) (hg : Q k busy g) (h : g.Sound ext told) (hn : .node n ∈ ext)
    (new : Value) : Q k busy (g.valueChange n new).2 := by
  have hsound := read_sound h (.outside hn)
  have hread := hP.read ha hg h (.outside hn)
  rw [Graph.valueChange]
  split
  · generalize g.read n = result at hread hsound ⊢
    rcases result with ⟨e | old, g'⟩
    · exact hread
    · refine hP.retainAll hread fun m hm => hsound.accounts.node_live ?_
      rw [List.mem_singleton.mp hm]
      exact hn
  · exact hg

end Outlives

namespace Endures

theorem setFormula (hP : Endures P) (h : P busy g) {text : String} {listeners : List Listener}
    (he : g.setFormula n text = .ok (listeners, g')) : P busy g' :=
  hP.outlasts.outlives.setFormula (k := 0) h he

theorem read (hP : Endures P) (hg : P busy g) (h : g.Sound ext told) (hn : g.Anchored ext n) :
    P busy (g.read n).2 :=
  hP.outlasts.read (k := 0) hg h hn

theorem parse (hP : Endures P) (hg : P busy g) (h : g.Sound ext told) (hr : g.scopeIsLive r = true)
    (text : String) : P busy (g.parse r text).2 :=
  hP.outlasts.parse (k := 0) hg h hr text

theorem formulaChange (hP : Endures P) (hg : P busy g) (h : g.Sound ext told)
    {edits : List (NodeId × String)} (hedits : ∀ e ∈ edits, .node e.1 ∈ ext) : P busy (g.formulaChange edits).2 :=
  hP.outlasts.outlives.formulaChange (k := 0) trivial hg h hedits

end Endures

end

variable {P : List NodeId → Graph → Prop} {Q : Nat → List NodeId → Graph → Prop} {busy told : List NodeId}

/-- It holds of the graph and the watches. -/
def Workspace.Upholds (Q : Nat → List NodeId → Graph → Prop) (w : Workspace) : Prop := Q w.watches.size [] w.graph

def KnownKeeps (Q : Nat → List NodeId → Graph → Prop) : Known Next → Prop
  | .ok next => next.2.Upholds Q
  | .error _ => True

theorem KnownKeeps.bind {α : Type} {x : Known α} {f : α → Known Next}
    (h : ∀ a, x = .ok a → KnownKeeps Q (f a)) : KnownKeeps Q (x >>= f) := by
  cases x with
  | ok a => exact h a rfl
  | error id => trivial

namespace Workspace

variable {w : Workspace} {rest : List Hold} {A : Graph → Prop}

mutual

theorem makeMember_outlives (hP : Outlives A Q) (new : NewMember) {w w' : Workspace} {rest : List Hold}
    {member : Member} (h : w.Sound rest told) (hg : w.Upholds Q) (hm : w.makeMember new = .ok (member, w')) :
    w'.Upholds Q := by
  cases new with
  | node id =>
    rw [makeMember] at hm
    cases hn : w.nodeNamed id with
    | error id => rw [hn] at hm; cases hm
    | ok n =>
      rw [hn] at hm
      cases hm
      refine hP.retain hg (.node n) fun m he => ?_
      cases he
      exact h.accounts.node_live (h.node_mem hn)
  | record id =>
    rw [makeMember] at hm
    cases hr : w.recordNamed id with
    | error id => rw [hr] at hm; cases hm
    | ok r =>
      rw [hr] at hm
      cases hm
      exact hP.retain hg (.record r) fun m he => by cases he
  | constant value =>
    rw [makeMember] at hm
    cases hm
    exact hP.leaf (some value) hg rfl rfl fun hp => nomatch hp
  | list items =>
    rw [makeMember] at hm
    cases hi : w.makeMembers items with
    | error id => rw [hi] at hm; cases hm
    | ok made =>
      rw [hi] at hm
      cases hm
      exact makeMembers_outlives hP items h hg hi

theorem makeMembers_outlives (hP : Outlives A Q) (items : List NewMember) {w w' : Workspace} {rest : List Hold}
    {members : List Member} (h : w.Sound rest told) (hg : w.Upholds Q)
    (hm : w.makeMembers items = .ok (members, w')) : w'.Upholds Q := by
  cases items with
  | nil =>
    rw [makeMembers] at hm
    cases hm
    exact hg
  | cons item items =>
    rw [makeMembers] at hm
    cases hi : w.makeMember item with
    | error id => rw [hi] at hm; cases hm
    | ok first =>
      obtain ⟨member, w₁⟩ := first
      rw [hi] at hm
      cases hr : w₁.makeMembers items with
      | error id =>
        simp only [bind, Except.bind, hr] at hm
        cases hm
      | ok others =>
        obtain ⟨members, w₂⟩ := others
        simp only [bind, Except.bind, hr] at hm
        cases hm
        have hfirst := makeMember_outlives hP item h hg hi
        obtain ⟨g, rfl, hsound⟩ := makeMember_sound item h hi
        have hnext : Workspace.Sound { w with graph := g } (member.holds ++ rest) told := by
          rwa [Workspace.Sound, List.append_assoc]
        exact makeMembers_outlives hP items hnext hfirst hr

end

theorem makeChange_outlives (hP : Outlives A Q) (new : NewChange) {made : Edited Change} {w' : Workspace}
    (ha : A w.graph) (h : w.Sound rest told) (hg : w.Upholds Q) (hm : w.makeChange new = .ok (made, w')) :
    w'.Upholds Q := by
  cases new with
  | prepared id =>
    rw [makeChange] at hm
    cases hc : w.changeNamed id with
    | error id => rw [hc] at hm; cases hm
    | ok change =>
      rw [hc] at hm
      cases hm
      exact hP.retainAll hg fun n hn => h.accounts.node_live
        (List.mem_append_right _ (mem_holds_of_change (getElem?_of_changeNamed hc) hn))
  | marker name =>
    cases hm
    exact hg
  | formulas edits =>
    rw [makeChange] at hm
    cases he : w.nodesNamed edits with
    | error id => rw [he] at hm; cases hm
    | ok named =>
      rw [he] at hm
      cases hm
      exact hP.formulaChange ha hg h fun e he' => List.mem_append_right _ (nodesNamed_mem he e he')
  | value id value =>
    rw [makeChange] at hm
    cases hn : w.nodeNamed id with
    | error id => rw [hn] at hm; cases hm
    | ok n =>
      rw [hn] at hm
      cases hm
      exact hP.valueChange ha hg h (h.node_mem hn) value

theorem keepMade_outlives (hP : Outlives A Q) {n : NodeId} {g : Graph} (hg : Q w.watches.size [] g) (id : String) :
    (w.keepMade id (n, g)).2.Upholds Q :=
  hP.release hg _

theorem bindMade_outlives (hP : Outlives A Q) {made : NodeId × Graph} (hg : Q w.watches.size [] made.2)
    (hlive : 0 < (made.2.cell made.1).owners) (r : RecordId) (name id : String) :
    (w.bindMade r name id made).2.Upholds Q := by
  refine keepMade_outlives hP (hP.insert (hP.retain hg (.node made.1) fun n he => ?_) r name _) id
  cases he
  exact hlive

theorem edit_outlives (hP : Outlives A Q) (hg : w.Upholds Q) {n : NodeId}
    {outcome : Edited (List Listener × Graph)} (hn : .node n ∈ rest ++ w.holds)
    (hsound : Graph.EditSound (rest ++ w.holds) told outcome)
    (hedit : ∀ listeners g, outcome = .ok (listeners, g) → Q w.watches.size [] g) :
    (w.edit n outcome).2.Upholds Q := by
  rcases outcome with fault | ⟨listeners, g⟩
  · exact hg
  · refine hP.retain (hedit listeners g rfl) (.node n) fun m he => ?_
    cases he
    exact hsound.accounts.node_live hn

theorem checked_outlives {outcome : Edited Unit × Graph} (hg : Q w.watches.size [] outcome.2) :
    (w.checked outcome).2.Upholds Q := by
  obtain ⟨fault | ⟨⟩, g⟩ := outcome
  · exact hg
  · exact hg

theorem keepBooks?_outlives (hg : w.Upholds Q) (result : Option (History Change × List (Effect Change))) :
    (w.keepBooks? result).2.Upholds Q := by
  cases result with
  | none => exact hg
  | some result => exact hg

theorem watch_outlives (hP : Outlives A Q) (hg : w.Upholds Q) (id : String) (n : NodeId) (script : List Step) :
    (w.watch id n script).2.Upholds Q := by
  have hsize : (w.watches.push ⟨id, script⟩).size = w.watches.size + 1 := Array.size_push _
  have hwatched := hP.release (hP.watch n hg) (w.tickets[id]?.toList.map .ticket)
  rw [← hsize] at hwatched
  exact hwatched

/-- By the shape of the step. -/
theorem perform_outlives (hP : Outlives A Q) (ha : A w.graph) (h : w.Sound rest told) (hg : w.Upholds Q)
    (step : Step) : KnownKeeps Q (w.perform step) := by
  cases step with
  | record id parent => exact .bind fun parent _ => hP.release (hP.addRecord hg parent) _
  | input scope name id value =>
    exact .bind fun r _ =>
      bindMade_outlives hP (hP.leaf _ hg rfl rfl (by exact fun hp => nomatch hp)) (Graph.live_addCell rfl) r name id
  | expression scope name id formula =>
    exact .bind fun r _ => bindMade_outlives hP (hP.leaf _ hg rfl rfl fun _ => rfl) (Graph.live_addCell rfl) r name id
  | expressions scope stem count formula =>
    exact .bind fun r _ => hP.addExpressions hg r stem formula count
  | insert scope name member =>
    exact .bind fun r _ => .bind fun made hm => hP.insert (makeMember_outlives hP member h hg hm) r name made.1
  | push scope name member =>
    exact .bind fun r _ => .bind fun made hm => hP.setMembers (makeMember_outlives hP member h hg hm) r _
  | remove scope name => exact .bind fun r _ => hP.remove hg r name
  | get | find | resolve | names | listing => exact .bind fun r _ => hg
  | handle scope name id =>
    refine .bind fun r hr => ?_
    split
    next n hn =>
      refine keepMade_outlives hP (hP.retain hg (.node n) fun m he => ?_) id
      cases he
      exact member?_live h.accounts (h.record_live hr) hn
    next => exact hg
  | freeConstant id value | freeInput id value =>
    exact keepMade_outlives hP (hP.leaf _ hg rfl rfl (by exact fun hp => nomatch hp)) id
  | freeExpression id scope formula =>
    exact .bind fun r _ => keepMade_outlives hP (hP.leaf _ hg rfl rfl fun _ => rfl) id
  | parse id scope formula =>
    refine .bind fun r hr => ?_
    have hparsed := hP.parse (r := r) formula ha hg h (by simpa [Graph.scopeIsLive] using h.record_live hr)
    split
    next n g hp =>
      rw [hp] at hparsed
      exact keepMade_outlives hP hparsed id
    next e g hp =>
      rw [hp] at hparsed
      exact hparsed
  | clone source id =>
    refine .bind fun n hn => keepMade_outlives hP (hP.retain hg (.node n) fun m he => ?_) id
    cases he
    exact h.accounts.node_live (h.node_mem hn)
  | dropNode id =>
    rw [perform]
    split
    · exact hP.release hg _
    · exact hg
  | dropRecord id =>
    rw [perform]
    split
    · exact hP.release hg _
    · exact hg
  | read id => exact .bind fun n hn => hP.read ha hg h (.outside (h.node_mem hn))
  | set id value =>
    exact .bind fun n hn => edit_outlives hP hg (h.node_mem hn) (Graph.setInput_sound h n value)
      fun listeners g he => hP.setInput hg he
  | setFormula id formula =>
    exact .bind fun n hn => edit_outlives hP hg (h.node_mem hn) (Graph.setFormula_sound h n formula)
      fun listeners g he => hP.setFormula hg he
  | check id formula => exact .bind fun n _ => checked_outlives (hP.checkFormula ha hg h n formula)
  | checkAll edits => exact .bind fun edits _ => checked_outlives (hP.checkFormulas ha hg h edits)
  | state id => exact .bind fun n _ => hg
  | states => exact hg
  | depends a b | same a b => exact .bind fun m _ => .bind fun n _ => hg
  | watch id source script =>
    exact .bind fun n _ => watch_outlives hP hg id n script
  | unwatch id =>
    rw [perform]
    split
    next t _ => exact hP.unsubscribe hg t
    next => exact hg
  | ticket | openBatch | closeBatch | abandonBatch | markSaved | history => exact hg
  | undo | redo => exact keepBooks?_outlives hg _
  | make change =>
    refine .bind fun made hm => ?_
    have hmade := makeChange_outlives hP change ha h hg hm
    obtain ⟨fault | change, w'⟩ := made
    · exact hmade
    · exact hmade
  | prepare id change =>
    refine .bind fun made hm => ?_
    have hmade := makeChange_outlives hP change ha h hg hm
    obtain ⟨fault | change, w'⟩ := made
    · exact hmade
    · exact hP.release hmade _
  | applyChange id | revertChange id =>
    exact .bind fun change hc => hP.retainAll hg fun n hn => h.accounts.node_live
      (List.mem_append_right _ (mem_holds_of_change (getElem?_of_changeNamed hc) hn))
  | merge a b =>
    refine .bind fun change _ => .bind fun other _ => ?_
    show (w.mergeInto a change other).2.Upholds Q
    rw [mergeInto]
    split <;> exact hg
  | batch ids | applyBatch ids | revertBatch ids =>
    refine .bind fun changes hc => hP.retainAll hg fun n hn => ?_
    obtain ⟨change, hchange, hx⟩ := List.mem_flatMap.mp hn
    obtain ⟨id, hid⟩ := changes_named hc change hchange
    exact h.accounts.node_live (List.mem_append_right _ (mem_holds_of_change hid hx))

/-- A task keeps what outlives everything. -/
theorem advance_outlives (hP : Outlives A Q) (task : Task) (ha : A w.graph) (h : w.Sound rest told)
    (hg : w.Upholds Q) : (w.advance task).2.Upholds Q := by
  cases task with
  | perform step =>
    have hperformed := perform_outlives hP ha h hg step
    rw [advance]
    cases hp : w.perform step with
    | ok next =>
      rw [hp] at hperformed
      exact hperformed
    | error id => exact hg
  | tell listener =>
    cases listener with
    | node n => exact hP.tell hg n
    | callback key =>
      rw [advance, tell]
      cases w.watches[key]? with
      | none => exact hg
      | some watch => exact hg
  | setInput n value =>
    rw [advance]
    cases he : w.graph.setInput n value with
    | error fault => exact hg
    | ok edited => exact hP.setInput hg he
  | setFormula n text =>
    rw [advance]
    cases he : w.graph.setFormula n text with
    | error fault => exact hg
    | ok edited => exact hP.setFormula hg he
  | effect effect =>
    cases effect with
    | discard change => exact hP.release hg _
    | apply change => cases change <;> exact hg
    | revert change => cases change <;> exact hg
  | release holds => exact hP.release hg holds
  | reply answer => exact hg
  | replyHistory ok => exact hg

theorem advance_outlasts (hP : Outlasts Q) (task : Task) (h : w.Sound rest told) (hg : w.Upholds Q) :
    (w.advance task).2.Upholds Q :=
  advance_outlives hP.outlives task trivial h hg

/-- What holds of nothing and outlasts whatever is done holds of every state that is reached. -/
theorem outlasts_of_run (hP : Outlasts Q) (hempty : Upholds Q {}) {limit : Nat} {steps : List Step}
    (h : Workspace.run limit {} (steps.map .perform) = some w) : w.Sound [] [] ∧ w.Upholds Q := by
  refine run_induction (P := fun tasks w =>
    w.Sound (tasks.flatMap Task.holds) (tasks.flatMap Task.told) ∧ w.Upholds Q)
    (fun task tasks w hw => ?_) ⟨sound_start steps, hempty⟩ h
  refine ⟨?_, advance_outlasts hP task hw.1 hw.2⟩
  rw [List.flatMap_append, List.flatMap_append]
  exact advance_sound task hw.1

/-- A task keeps what endures. -/
theorem advance_endures (hP : Endures P) (task : Task) (h : w.Sound rest told) (hg : P [] w.graph) :
    P [] (w.advance task).2.graph :=
  advance_outlasts hP.outlasts task h hg

/-- What holds of the empty graph and endures holds of every state that is reached. -/
theorem endures_of_run (hP : Endures P) (hempty : P [] {}) {limit : Nat} {steps : List Step}
    (h : Workspace.run limit {} (steps.map .perform) = some w) : w.Sound [] [] ∧ P [] w.graph :=
  outlasts_of_run hP.outlasts hempty h

end Workspace

end FormulaGraph
