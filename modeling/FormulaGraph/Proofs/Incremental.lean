import FormulaGraph.Proofs.Populating
import FormulaGraph.Proofs.Rebuilding

/-! Reading an expression comes to the same as building its formula afresh, once the records are filled. The
tree that is read may be an old one, in which members were looked up for values of other kinds. -/

namespace FormulaGraph

/-- The value of a formula in a scope, which is built for this and given up again. -/
def Graph.evaluateIn (g : Graph) (scope : RecordId) (formula : String) : Checked Value × Graph :=
  match g.parse scope formula with
  | (.ok root, g) =>
    let (result, g) := g.read root
    (result, g.release [.node root])
  | (.error e, g) => (.error e, g)

section

variable {g : Graph} {ext : List Hold} {n root : NodeId} {scope : RecordId} {text : String} {v : Value}

open FormulaGraph.Graph

/-- A formula that was built has its value again when it is built again. -/
theorem evaluateIn_of_builtFrom (hs : g.Sound ext []) (hb : g.BuiltFrom scope text root)
    (hlive : 0 < (g.cell root).owners) (hv : g.Has root v) : (g.evaluateIn scope text).1 = .ok v := by
  obtain ⟨hr, tokens, e, htokens, hspells, hbuilt⟩ := hb
  have hgiven : Gives (g.Given fun _ => True) (.value root) (.value v) := ⟨hv, hlive, trivial⟩
  have hproduces : Produces ((graphBuilder readNode).build scope e >>= Entry.only) g fun a g' => g'.Has a v :=
    ((rebuilds_of_grows g).rebuild hs hr e (.refl g) hbuilt hgiven).bind fun x g₁ hx =>
      (only_produces hx.2).mono fun a g₂ ha => ha.1 ▸ ha.2
  obtain ⟨a, g', hrun, ha⟩ := hproduces
  have hparse : g.parse scope text = (.ok a, g') :=
    (run_parse_ok_iff _ scope text).mpr ⟨tokens, htokens, (run_takeAll_iff _ scope hspells).mpr hrun⟩
  have hread : g'.read a = (.ok v, g') := run_readNode_of_has ha
  rw [evaluateIn, hparse]
  dsimp only
  rw [hread]

end

/-- Changes values and formulas, or reads them. -/
def Step.edits : Step → Bool
  | .set .. | .setFormula .. | .read .. => true
  | _ => false

def Task.edits : Task → Bool
  | .perform step => step.edits
  | .tell _ | .reply _ => true
  | .release holds => holds.all fun hold => !hold.isRecord
  | _ => false

namespace Workspace

/-- Every tree is that of its formula, and nobody watches. -/
structure Tended (w : Workspace) : Prop where
  faithful : w.graph.Faithful
  watches : w.watches = #[]

variable {w w' : Workspace} {rest : List Hold} {told : List NodeId}

theorem Unread.tended (h : w.Unread) : w.Tended := ⟨h.unbuilt.faithful, h.watches⟩

end Workspace

def Next.Tends (next : Next) : Prop :=
  next.2.Tended ∧ ∀ task ∈ next.1, task.edits = true

namespace Workspace

variable {w w' : Workspace} {rest : List Hold} {told : List NodeId}

theorem Tended.reply (h : w.Tended) (answer : Answer) : Next.Tends (w.reply answer) := by
  refine ⟨h, fun task htask => ?_⟩
  rw [List.mem_singleton.mp htask]
  rfl

theorem Tended.edit (h : w.Tended) (n : NodeId) {outcome : Edited (List Listener × Graph)}
    (hedit : ∀ listeners g, outcome = .ok (listeners, g) → w.graph.TreesFrom g) :
    Next.Tends (w.edit n outcome) := by
  rcases outcome with fault | ⟨listeners, g⟩
  · exact h.reply _
  · have htrees := (hedit listeners g rfl).trans (Graph.treesFrom_retain_node (n := n))
    refine ⟨⟨h.faithful.treesFrom htrees, h.watches⟩, fun task htask => ?_⟩
    rcases List.mem_append.mp htask with htask | htask
    · obtain ⟨listener, -, rfl⟩ := List.mem_map.mp htask
      rfl
    · rcases List.mem_cons.mp htask with rfl | htask
      · rfl
      · rw [List.mem_singleton.mp htask]
        rfl

theorem Tended.perform (h : w.Tended) (hs : w.Sound rest told) {step : Step} (hstep : step.edits = true) :
    match w.perform step with
    | .ok next => next.Tends
    | .error _ => True := by
  cases step with
  | set id value =>
    rw [Workspace.perform]
    cases hn : w.nodeNamed id with
    | error id => trivial
    | ok n => exact h.edit n fun listeners g he => Graph.setInput_treesFrom he
  | setFormula id formula =>
    rw [Workspace.perform]
    cases hn : w.nodeNamed id with
    | error id => trivial
    | ok n => exact h.edit n fun listeners g he => Graph.setFormula_treesFrom he
  | read id =>
    rw [Workspace.perform]
    cases hn : w.nodeNamed id with
    | error id => trivial
    | ok n =>
      have hread := readNode_faithful hs (.outside (hs.node_mem hn)) h.faithful
      exact Tended.reply (w := { w with graph := (w.graph.read n).2 }) ⟨hread, h.watches⟩ _
  | _ => cases hstep

theorem Tended.advance (h : w.Tended) {task : Task} (hs : w.Sound rest told) (htask : task.edits = true) :
    Next.Tends (w.advance task) := by
  cases task with
  | perform step =>
    have hperformed := h.perform hs htask
    rw [Workspace.advance]
    cases hp : w.perform step with
    | ok next =>
      rw [hp] at hperformed
      exact hperformed
    | error id => exact h.reply _
  | tell listener =>
    cases listener with
    | node n =>
      refine ⟨⟨h.faithful.treesFrom Graph.treesFrom_tell, h.watches⟩, fun task htask => ?_⟩
      obtain ⟨listener, -, rfl⟩ := List.mem_map.mp htask
      rfl
    | callback key =>
      rw [Workspace.advance, Workspace.tell, h.watches]
      exact ⟨h, fun _ ht => (List.not_mem_nil ht).elim⟩
  | release holds =>
    refine ⟨⟨h.faithful.treesFrom (Graph.treesFrom_release fun x hx => ?_), h.watches⟩,
      fun _ ht => (List.not_mem_nil ht).elim⟩
    simpa using List.all_eq_true.mp htask x hx
  | reply answer => exact ⟨⟨h.faithful, h.watches⟩, fun _ ht => (List.not_mem_nil ht).elim⟩
  | setInput | setFormula | effect | replyHistory => cases htask

theorem tended_of_run {limit : Nat} {steps : List Step} (hsteps : ∀ step ∈ steps, step.edits = true)
    (h : w.Tended) (hs : w.Sound [] []) (hr : w.run limit (steps.map .perform) = some w') :
    w'.Sound [] [] ∧ w'.Tended := by
  have htasks : ∀ task ∈ steps.map Task.perform, task.edits = true := by
    intro task htask
    obtain ⟨step, hstep, rfl⟩ := List.mem_map.mp htask
    exact hsteps step hstep
  have hsound : w.Sound ((steps.map Task.perform).flatMap Task.holds)
      ((steps.map Task.perform).flatMap Task.told) := by
    rw [holds_map_perform, told_map_perform]
    exact hs
  refine ⟨run_sound hsound hr, ?_⟩
  refine (run_induction (P := fun tasks w => w.Sound (tasks.flatMap Task.holds) (tasks.flatMap Task.told) ∧
    w.Tended ∧ ∀ task ∈ tasks, task.edits = true) (fun task tasks w h => ?_) ⟨hsound, h, htasks⟩ hr).2.1
  obtain ⟨hsound, hw, hall⟩ := h
  obtain ⟨hw', hfirst⟩ := hw.advance hsound (hall task List.mem_cons_self)
  refine ⟨?_, hw', fun t ht => ?_⟩
  · rw [List.flatMap_append, List.flatMap_append]
    exact advance_sound task hsound
  · rcases List.mem_append.mp ht with ht | ht
    · exact hfirst t ht
    · exact hall t (List.mem_cons_of_mem _ ht)

/-- Once the records are filled, and whatever values and formulas have been set since: what an expression is
read to be is what its formula, built afresh, is worked out to be. -/
theorem evaluateIn_of_read {limit : Nat} {setup edits : List Step} {w : Workspace}
    (hsetup : ∀ step ∈ setup, step.populates = true) (hedits : ∀ step ∈ edits, step.edits = true)
    (h : Workspace.run limit {} ((setup ++ edits).map .perform) = some w) {id : String} {n : NodeId}
    {v : Value} {g : Graph} (hn : w.handles[id]? = some n) (hread : w.graph.read n = (.ok v, g))
    {scope : RecordId} {source : Source} (hnode : g.node n = .expression scope source) :
    (g.evaluateIn scope source.text).1 = .ok v := by
  rw [List.map_append] at h
  obtain ⟨limit', w₁, hfirst, hsecond⟩ := run_append h
  have hunread := unread_of_run hsetup hfirst
  have hsound₁ : w₁.Sound [] [] := by
    refine run_sound ?_ hfirst
    rw [holds_map_perform, told_map_perform]
    exact sound_empty
  obtain ⟨hsound, htended⟩ := tended_of_run hedits hunread.tended hsound₁ hsecond
  have hheld : .node n ∈ [] ++ w.holds :=
    List.mem_append_right _ (List.mem_append_left _ (mem_allOf hn (List.mem_singleton_self _)))
  have hfaithful := readNode_faithful hsound (.outside hheld) htended.faithful
  obtain ⟨hsound', -, hvalue⟩ := readNode_reads hsound (.outside hheld)
  rw [Graph.read] at hread
  rw [hread] at hfaithful hsound' hvalue
  obtain ⟨hclean, hcache⟩ := hvalue v rfl
  have hlive := hsound'.accounts.node_live hheld
  obtain ⟨hdeps, v', hv', hgiven⟩ := hsound'.coherent.fresh n hlive hclean List.not_mem_nil
  rw [hcache] at hv'
  obtain rfl := Option.some.inj hv'
  rw [Graph.given?, hnode] at hgiven
  cases source with
  | built tree =>
    have hdep : tree.root ∈ g.dependencies n := by
      rw [Graph.dependencies, hnode]
      exact List.mem_singleton_self _
    exact evaluateIn_of_builtFrom hsound' (hfaithful n scope tree (by rw [hnode]; rfl))
      (hsound'.accounts.dependency_live hlive hdep) ⟨hdeps tree.root hdep, hgiven⟩
  | unbuilt | edited => cases hgiven

def textSetup : List Step :=
  [.record "r" none, .input "r" "a" "a" (.text "x"), .expression "r" "e" "e" "a + \"!\""]

/-- What was a text when the formula was built is a truth value now. -/
def truthEdits : List Step := [.read "e", .set "a" (.bool true)]

theorem evaluateIn_after_kind_change :
    ∃ w n v g scope source, Workspace.run 100 {} ((textSetup ++ truthEdits).map .perform) = some w ∧
      w.handles["e"]? = some n ∧ w.graph.read n = (.ok v, g) ∧ v.asText? = some "true!" ∧
        g.node n = .expression scope source ∧ (g.evaluateIn scope source.text).1 = .ok v := by
  have hdone : ((Workspace.run 100 {} ((textSetup ++ truthEdits).map .perform)).bind fun w =>
      w.handles["e"]?.bind fun n => (w.graph.read n).1.toOption.bind fun v => v.asText?.bind fun s =>
        ((w.graph.read n).2.node n).formula?.map fun _ => s) = some "true!" := by
    decide +kernel
  obtain ⟨w, hw, hdone⟩ := Option.bind_eq_some_iff.mp hdone
  obtain ⟨n, hn, hdone⟩ := Option.bind_eq_some_iff.mp hdone
  obtain ⟨v, hv, hdone⟩ := Option.bind_eq_some_iff.mp hdone
  obtain ⟨s, hs, hdone⟩ := Option.bind_eq_some_iff.mp hdone
  obtain ⟨text, htext, rfl⟩ := Option.map_eq_some_iff.mp hdone
  have hread : w.graph.read n = (.ok v, (w.graph.read n).2) := Prod.ext (toOption_eq_some.mp hv) rfl
  cases hnode : (w.graph.read n).2.node n with
  | expression scope source =>
    refine ⟨w, n, v, _, scope, source, hw, hn, hread, hs, hnode, ?_⟩
    exact evaluateIn_of_read (by decide) (by decide) hw hn hread hnode
  | constant | input | calculation =>
    rw [hnode] at htext
    cases htext

end Workspace

end FormulaGraph
