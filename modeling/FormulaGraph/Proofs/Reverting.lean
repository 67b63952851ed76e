import FormulaGraph.Proofs.Meaning
import FormulaGraph.Proofs.Merging
import FormulaGraph.Proofs.Writing

/-! Applying and reverting changes of formulas. What has effects on a graph has the same effects on its formulas. -/

namespace FormulaGraph

open FormulaGraph.Graph

namespace Graph

variable {g g' : Graph} {n m : NodeId} {text : String} {listeners : List Listener} {holds ext : List Hold}
  {told : List NodeId} {replaced replaced' : Replaced}

def formulas (g : Graph) : Formulas := fun n => (g.node n).formula?

theorem formulas_congr (h : ∀ m, (g'.node m).formula? = (g.node m).formula?) : g'.formulas = g.formulas := funext h

theorem formulas_touchAll (nodes : List NodeId) : (g.touchAll nodes).formulas = g.formulas := by
  refine formulas_congr fun m => ?_
  rw [node, cell_touchAll, node]
  split <;> rfl

theorem formulas_release : (g.release holds).formulas = g.formulas :=
  formulas_congr fun m => congrArg (fun core => core.1.formula?) (core_release m)

theorem formulas_retainAll : (g.retainAll holds).formulas = g.formulas := by
  rw [retainAll]
  induction holds generalizing g with
  | nil => rfl
  | cons hold holds ih =>
    refine ih.trans ?_
    cases hold with
    | node n =>
      exact formulas_congr fun m => congrArg Node.formula? (cell_modifyCell_congr Cell.node (by exact fun _ => rfl) m)
    | record | ticket => rfl

/-- An edit leads to the formulas `d`. Nobody comes to listen by it, and whoever is to be told listens already. -/
def EditsTo (g : Graph) (d : Formulas) : Edited (List Listener × Graph) → Prop
  | .error _ => g.formulas = d
  | .ok (told, g') => g'.formulas = d ∧ (∀ m, (g'.cell m).listeners = (g.cell m).listeners) ∧
      ∀ l ∈ told, ∃ m, l ∈ (g.cell m).listeners.listeners

theorem editsTo_nothing : g.EditsTo g.formulas (.ok ([], g)) :=
  ⟨rfl, fun _ => rfl, fun _ hl => (List.not_mem_nil hl).elim⟩

theorem editsTo_dirtied {node : Node} {d : Formulas}
    (h : ∀ m, (if m = n then node.formula? else g.formulas m) = d m) (hlt : n < g.cells.size) :
    g.EditsTo d (.ok ((g.modifyCell n fun c => { c with node }).dirtied n)) := by
  have hsame : ∀ m, (((g.modifyCell n fun c => { c with node }).touch n).cell m).listeners = (g.cell m).listeners :=
    fun m => listeners_touch.trans (cell_modifyCell_congr Cell.listeners (by exact fun _ => rfl) m)
  refine ⟨funext fun m => ?_, hsame, fun l hl => ⟨n, ?_⟩⟩
  · refine (congrArg Node.formula? (alike_dirtied.node m)).trans ?_
    rw [← h m, Graph.node, cell_modifyCell]
    by_cases hm : m = n <;> simp [hm, hlt, formulas, Graph.node]
  · rw [← hsame]
    exact (List.mem_filter.mp hl).1

/-- Setting a formula sets it among the formulas. -/
theorem setFormula_editsTo (g : Graph) (n : NodeId) (text : String) :
    g.EditsTo (g.formulas.set n text) (g.setFormula n text) := by
  rw [setFormula]
  cases hnode : g.node n with
  | constant | input | calculation =>
    have hnone : g.formulas n = none := congrArg Node.formula? hnode
    refine funext fun m => ?_
    rw [Formulas.set, hnone]
    split
    next hm => rw [hm, hnone]; rfl
    next => rfl
  | expression scope source =>
    have hsome : g.formulas n = some source.text := congrArg Node.formula? hnode
    dsimp only
    split
    next htext =>
      have hsame : g.formulas.set n text = g.formulas := funext fun m => by
        rw [Formulas.set, hsome]
        split
        next hm => rw [hm, hsome, ← htext]; rfl
        next => rfl
      rw [hsame]
      exact editsTo_nothing
    next =>
      refine editsTo_dirtied (fun m => ?_) (lt_size_of_node (by simp [hnode]))
      rw [Formulas.set, hsome]
      split
      · cases source <;> rfl
      · rfl

/-- Setting an input leaves the formulas alone. -/
theorem setInput_editsTo (g : Graph) (n : NodeId) (value : Value) : g.EditsTo g.formulas (g.setInput n value) := by
  rw [setInput]
  cases hnode : g.node n with
  | constant | expression | calculation => exact rfl
  | input old =>
    have hnone : g.formulas n = none := congrArg Node.formula? hnode
    dsimp only
    split
    · exact editsTo_nothing
    · refine editsTo_dirtied (fun m => ?_) (lt_size_of_node (by simp [hnode]))
      split
      next hm => rw [hm, hnone]; rfl
      next => rfl

theorem isExpression_frame (node : Node) : node.frame.isExpression = node.isExpression := by cases node <;> rfl

theorem formulas_of_isExpression (hn : (g.node n).isExpression = true) : ∃ text, g.formulas n = some text := by
  rw [formulas]
  cases hnode : g.node n with
  | expression scope source => exact ⟨_, rfl⟩
  | constant | input | calculation =>
    rw [hnode] at hn
    cases hn

theorem GrowsOn.isExpression (h : g.Grows g') (hn : (g.node n).isExpression = true) :
    (g'.node n).isExpression = true := by
  have hlt : n < g.cells.size := lt_size_of_node fun hnode => by
    rw [hnode] at hn
    cases hn
  rw [← isExpression_frame, h.frame n trivial hlt, isExpression_frame, hn]

/-- What has been tried out are formulas of expressions. -/
theorem isExpression_of_buildAll {edits : List (NodeId × String)} (h : g.Sound (Replaced.holds replaced ++ ext) told)
    (hb : g.buildAll replaced edits = (.ok replaced', g')) :
    (∀ n, (g.node n).isExpression = true → (g'.node n).isExpression = true) ∧
      ∀ edit ∈ edits, (g'.node edit.1).isExpression = true := by
  fun_induction Graph.buildAll g replaced edits with
  | case1 =>
    cases hb
    exact ⟨fun _ hn => hn, fun _ hedit => (List.not_mem_nil hedit).elim⟩
  | case2 g replaced n text edits scope source hnode hs root g₁ hparse g₂ ih =>
    obtain ⟨hsound, hgrows⟩ := h.of_parse hs hparse
    obtain ⟨hkept, hrest⟩ := ih (hsound.replace n) hb
    have hreleased : g₁.Grows g₂ := grows_release (by simp [Hold.isRecord])
    have hgrows : g.Grows g₂ := hgrows.trans hreleased
    refine ⟨fun m hm => hkept m (hgrows.isExpression hm), fun edit hedit => ?_⟩
    rcases List.mem_cons.mp hedit with rfl | hedit
    · exact hkept n (hgrows.isExpression (by rw [hnode]; rfl))
    · exact hrest edit hedit
  | case3 | case4 | case5 => cases hb

/-- A change is made for the formulas that there are once it has been tried out. -/
theorem suits_of_formulaChange {edits : List (NodeId × String)} {change : Change} (h : g.Sound ext told)
    (hchange : g.formulaChange edits = (.ok change, g')) :
    change.Suits g'.formulas ∧ change.news = edits ∧ ∃ edits, change = .formulas edits := by
  rw [formulaChange, checkFormulas] at hchange
  generalize hbuild : g.buildAll [] edits = built at hchange
  obtain ⟨fault | replaced, g₁⟩ := built
  · cases hchange
  · dsimp only at hchange
    cases hcyclic : g₁.cyclicEdit? replaced edits with
    | some text =>
      rw [hcyclic] at hchange
      cases hchange
    | none =>
      rw [hcyclic] at hchange
      obtain ⟨hmade, hg⟩ := Prod.mk.inj hchange
      obtain rfl := Except.ok.inj hmade
      have hformulas : g'.formulas = (g₁.release (replaced.map (.node ·.2))).formulas := by
        rw [← hg, formulas_retainAll]
      have hnone : g.Sound (Replaced.holds [] ++ ext) told := h
      obtain ⟨-, hexpressions⟩ := isExpression_of_buildAll hnone hbuild
      refine ⟨fun entry hentry => ?_, ?_, _, rfl⟩
      · rw [Change.olds, Change.edits, formulaEdits, List.map_map] at hentry
        obtain ⟨edit, hedit, rfl⟩ := List.mem_map.mp hentry
        obtain ⟨text, htext⟩ := formulas_of_isExpression (hexpressions edit hedit)
        rw [← formulas_release] at htext
        rw [hformulas]
        exact htext.trans (congrArg (fun formula => some (formula.getD "")) htext.symm)
      · rw [Change.news, Change.edits, formulaEdits, List.map_map]
        exact List.map_id _

end Graph

namespace Workspace

variable {w w' : Workspace} {n : NodeId} {text : String}

/-- No callback does anything to the graph. -/
structure Inert (w : Workspace) : Prop where
  scripts (watch : Watch) : watch ∈ w.watches → Unobtrusive watch.script
  known (m : NodeId) (key : Nat) : .callback key ∈ (w.graph.cell m).listeners.listeners → key < w.watches.size

theorem Inert.of_attended (hscripts : ∀ watch ∈ w.watches, Unobtrusive watch.script)
    (h : w.graph.Attended w.watches.size) : w.Inert := by
  refine ⟨hscripts, fun m key hkey => ?_⟩
  obtain ⟨i, generation, hplace⟩ := Arena.mem_listeners.mp hkey
  exact h.callback ⟨m, i, generation⟩ key hplace

theorem Inert.congr (h : w.Inert) (hlisteners : ∀ m, (w'.graph.cell m).listeners = (w.graph.cell m).listeners)
    (hwatches : w'.watches = w.watches) : w'.Inert :=
  ⟨fun watch hwatch => h.scripts watch (hwatches ▸ hwatch), fun m key hkey =>
    hwatches ▸ h.known m key (hlisteners m ▸ hkey)⟩

theorem Inert.heeds (h : w.Inert) {m : NodeId} {l : Listener} (hl : l ∈ (w.graph.cell m).listeners.listeners) :
    w.Heeds (fun _ => True) l := by
  cases l with
  | node => exact fun _ => trivial
  | callback key =>
    have hlt := h.known m key hl
    exact ⟨w.watches[key], Array.getElem?_eq_getElem hlt, h.scripts _ (Array.getElem_mem hlt)⟩

theorem listeners_touchAll {g : Graph} (nodes : List NodeId) (m : NodeId) :
    ((g.touchAll nodes).cell m).listeners = (g.cell m).listeners := by
  rw [cell_touchAll]
  split <;> rfl

/-- Tasks come to an end with the formulas that there ought to be then. -/
def Leads (w : Workspace) (tasks : List Task) (d : Formulas) : Prop :=
  ∃ w', w.Does tasks w' ∧ w'.Inert ∧ w'.graph.formulas = d

theorem Inert.tells (h : w.Inert) {listeners : List Listener}
    (hlistens : ∀ l ∈ listeners, ∃ m, l ∈ (w.graph.cell m).listeners.listeners) :
    w.Leads (listeners.map .tell) w.graph.formulas := by
  obtain ⟨w', turned, called, hdoes, hspreads, -⟩ := exists_spreads (D := fun _ => True) listeners
    (fun _ _ _ hl => h.heeds hl) fun l hl => (hlistens l hl).elim fun _ hm => h.heeds hm
  refine ⟨w', hdoes, h.congr (fun m => ?_) hspreads.watches, ?_⟩
  · rw [hspreads.graph, listeners_touchAll]
  · rw [hspreads.graph, formulas_touchAll]

theorem Inert.editSilently (h : w.Inert) {task : Task} {d : Formulas} {outcome : Edited (List Listener × Graph)}
    (hadvance : w.advance task = w.editSilently outcome) (hedits : w.graph.EditsTo d outcome) : w.Leads [task] d := by
  cases outcome with
  | error fault =>
    refine ⟨w, .step ?_, h, hedits⟩
    rw [hadvance]
    exact .nil w
  | ok edited =>
    obtain ⟨listeners, g⟩ := edited
    obtain ⟨hd, hsame, hlistens⟩ := hedits
    have hinert : Inert { w with graph := g } := h.congr hsame rfl
    obtain ⟨w', hdoes, hinert', hd'⟩ := hinert.tells fun l hl => (hlistens l hl).imp fun m hm => by rwa [hsame]
    refine ⟨w', .step ?_, hinert', hd'.trans hd⟩
    rw [hadvance, Workspace.editSilently, List.append_nil]
    exact hdoes

theorem Inert.setFormula (h : w.Inert) (n : NodeId) (text : String) :
    w.Leads [.setFormula n text] (w.graph.formulas.set n text) :=
  h.editSilently rfl (w.graph.setFormula_editsTo n text)

theorem Inert.setFormulas (h : w.Inert) (texts : List (NodeId × String)) :
    w.Leads (texts.map fun entry => .setFormula entry.1 entry.2) (w.graph.formulas.setAll texts) := by
  induction texts generalizing w with
  | nil => exact ⟨w, .nil w, h, rfl⟩
  | cons entry texts ih =>
    obtain ⟨w₁, hfirst, hinert, hd⟩ := h.setFormula entry.1 entry.2
    obtain ⟨w', hrest, hinert', hd'⟩ := ih hinert
    rw [hd] at hd'
    exact ⟨w', hfirst.append hrest, hinert', hd'⟩

theorem Leads.step {task : Task} {tasks : List Task} {d : Formulas}
    (hadvance : w.advance task = (tasks, w)) (h : w.Leads tasks d) : w.Leads [task] d := by
  obtain ⟨w', hdoes, hinert, hd⟩ := h
  refine ⟨w', .step ?_, hinert, hd⟩
  rw [hadvance, List.append_nil]
  exact hdoes

/-- An effect on the graph has the same effect on its formulas. -/
theorem Inert.effect (h : w.Inert) (effect : Effect Change) :
    w.Leads [.effect effect] (formulaEditing.enact effect w.graph.formulas) := by
  cases effect with
  | apply change =>
    cases change with
    | formulas edits =>
      have htasks : (Change.formulas edits).applyTasks =
          (Change.formulas edits).news.map fun entry => .setFormula entry.1 entry.2 := by
        rw [Change.news, List.map_map]
        rfl
      exact .step (congrArg (·, w) htasks) (h.setFormulas _)
    | value target old new => exact .step rfl (h.editSilently rfl (w.graph.setInput_editsTo target new))
    | marker name =>
      exact ⟨w.note (.applied name), .step (.nil _), h.congr (fun _ => rfl) rfl, rfl⟩
  | revert change =>
    cases change with
    | formulas edits =>
      have htasks : (Change.formulas edits).revertTasks =
          (Change.formulas edits).olds.reverse.map fun entry => .setFormula entry.1 entry.2 := by
        rw [Change.olds, ← List.map_reverse, List.map_map]
        rfl
      exact .step (congrArg (·, w) htasks) (h.setFormulas _)
    | value target old new => exact .step rfl (h.editSilently rfl (w.graph.setInput_editsTo target old))
    | marker name =>
      exact ⟨w.note (.reverted name), .step (.nil _), h.congr (fun _ => rfl) rfl, rfl⟩
  | discard change =>
    refine ⟨{ w with graph := w.graph.release change.holds }, .step (.nil _), ⟨h.scripts, fun m key hkey => ?_⟩, ?_⟩
    · obtain ⟨i, generation, hplace⟩ := Arena.mem_listeners.mp hkey
      exact h.known m key (Arena.mem_listeners.mpr ⟨i, generation,
        registered_of_release (t := ⟨m, i, generation⟩) hplace⟩)
    · exact formulas_release

theorem Inert.effects (h : w.Inert) (effects : List (Effect Change)) :
    w.Leads (effects.map .effect) (formulaEditing.enactAll effects w.graph.formulas) := by
  induction effects generalizing w with
  | nil => exact ⟨w, .nil w, h, rfl⟩
  | cons effect effects ih =>
    obtain ⟨w₁, hfirst, hinert, hd⟩ := h.effect effect
    obtain ⟨w', hrest, hinert', hd'⟩ := ih hinert
    rw [hd] at hd'
    exact ⟨w', hfirst.append hrest, hinert', hd'⟩

theorem Does.unique {tasks : List Task} {w₁ : Workspace} (h : w.Does tasks w₁) (h' : w.Does tasks w') : w₁ = w' := by
  obtain ⟨limit, h⟩ := h
  obtain ⟨limit', h'⟩ := h'
  exact Option.some.inj ((run_mono h (Nat.le_max_left limit limit')).symm.trans (run_mono h' (Nat.le_max_right _ _)))

/-- What outlasts whatever is done is kept by tasks, beside what is held elsewhere. -/
theorem run_outlasts {Q : Nat → List NodeId → Graph → Prop} (hQ : Outlasts Q) {rest : List Hold} {tasks : List Task}
    {limit : Nat} (h : w.Sound (tasks.flatMap Task.holds ++ rest) (tasks.flatMap Task.told)) (hg : w.Upholds Q)
    (hr : w.run limit tasks = some w') : w'.Sound rest [] ∧ w'.Upholds Q := by
  refine run_induction (P := fun tasks w =>
    w.Sound (tasks.flatMap Task.holds ++ rest) (tasks.flatMap Task.told) ∧ w.Upholds Q)
    (fun task tasks w hw => ⟨?_, advance_outlasts hQ task hw.1 hw.2⟩) ⟨h, hg⟩ hr
  have hsound := hw.1
  rw [List.flatMap_cons, List.flatMap_cons, List.append_assoc] at hsound
  rw [List.flatMap_append, List.flatMap_append, List.append_assoc]
  exact advance_sound task hsound

/-- What making and applying changes keeps: `rest` is held besides what is in the tables. -/
structure Tame (w : Workspace) (rest : List Hold) : Prop where
  sound : w.Sound rest []
  attended : w.graph.Attended w.watches.size
  scripts (watch : Watch) : watch ∈ w.watches → Unobtrusive watch.script

theorem Tame.inert {rest : List Hold} (h : w.Tame rest) : w.Inert := .of_attended h.scripts h.attended

theorem Tame.apply {rest : List Hold} {change : Change} (h : w.Tame rest)
    (hdoes : w.Does [.effect (.apply change)] w') :
    w'.Tame rest ∧ w'.graph.formulas = formulaEditing.apply change w.graph.formulas := by
  obtain ⟨w₁, hdoes₁, hinert, hd⟩ := h.inert.effect (.apply change)
  obtain rfl := hdoes₁.unique hdoes
  obtain ⟨limit, hr⟩ := hdoes
  have hstart : w.Sound ([Task.effect (.apply change)].flatMap Task.holds ++ rest)
      ([Task.effect (.apply change)].flatMap Task.told) := h.sound
  obtain ⟨hsound, hattended⟩ := run_outlasts outlasts_attended hstart h.attended hr
  exact ⟨⟨hsound, hattended, hinert.scripts⟩, hd⟩

/-- A change is made for the formulas that there are then. -/
theorem Tame.make {rest : List Hold} {edits : List (String × String)} {change : Change} (h : w.Tame rest)
    (hmake : w.makeChange (.formulas edits) = .ok (.ok change, w')) :
    w'.Tame (change.holds ++ rest) ∧ change.Suits w'.graph.formulas ∧ w.nodesNamed edits = .ok change.news ∧
      ∃ edits, change = .formulas edits := by
  obtain ⟨g, rfl, hsound⟩ := makeChange_sound (.formulas edits) h.sound hmake
  have hattended := makeChange_outlives outlasts_attended.outlives (.formulas edits) trivial h.sound h.attended hmake
  rw [Graph.ChangeSound, ← List.append_assoc] at hsound
  rw [makeChange] at hmake
  cases hnamed : w.nodesNamed edits with
  | error id =>
    rw [hnamed] at hmake
    cases hmake
  | ok named =>
    rw [hnamed] at hmake
    obtain ⟨hmade, hg⟩ := Prod.mk.inj (Except.ok.inj hmake)
    have hchange : w.graph.formulaChange named = (.ok change, g) :=
      Prod.ext hmade (congrArg Workspace.graph hg)
    obtain ⟨hsuits, hnews, hformulas⟩ := suits_of_formulaChange h.sound hchange
    exact ⟨⟨hsound, hattended, h.scripts⟩, hsuits, congrArg Except.ok hnews.symm, hformulas⟩

/-- Changes of formulas are made and applied one after the other, each in the state that the one before it left. -/
inductive Alters : Workspace → List Change → Workspace → Prop
  | nil (w : Workspace) : Alters w [] w
  | cons {edits : List (String × String)} {change : Change} {changes : List Change} {w w₁ w₂ w' : Workspace}
    (hmake : w.makeChange (.formulas edits) = .ok (.ok change, w₁)) (happly : w₁.Does [.effect (.apply change)] w₂)
    (h : Alters w₂ changes w') : Alters w (change :: changes) w'

theorem Alters.formulas {changes : List Change} {rest : List Hold} (h : w.Alters changes w') (ht : w.Tame rest) :
    ∀ change ∈ changes, ∃ edits, change = .formulas edits := by
  induction h generalizing rest with
  | nil w => exact fun _ hchange => (List.not_mem_nil hchange).elim
  | @cons edits change changes w w₁ w₂ w' hmake happly h ih =>
    obtain ⟨ht₁, -, -, hformulas⟩ := ht.make hmake
    intro change' hchange
    rcases List.mem_cons.mp hchange with rfl | hchange
    · exact hformulas
    · exact ih (ht₁.apply happly).1 change' hchange

theorem Alters.tame {changes : List Change} {rest : List Hold} (h : w.Alters changes w') (ht : w.Tame rest) :
    ∃ rest, w'.Tame rest := by
  induction h generalizing rest with
  | nil w => exact ⟨rest, ht⟩
  | cons hmake happly h ih => exact ih ((ht.make hmake).1.apply happly).1

/-- What comes of a node that each of the changes sets does not depend on what is done in between. -/
theorem Alters.agree {changes : List Change} {rest : List Hold} {d : Formulas} {n : NodeId} (h : w.Alters changes w')
    (ht : w.Tame rest) (hn : ∀ change ∈ changes, n ∈ change.targets) {text : String}
    (hw : w.graph.formulas n = some text) (hd : d n = some text) :
    ∃ text, w'.graph.formulas n = some text ∧ formulaEditing.applyAll changes d n = some text := by
  induction h generalizing rest d text with
  | nil w => exact ⟨text, hw, hd⟩
  | @cons edits change changes w w₁ w₂ w' hmake happly h ih =>
    obtain ⟨ht₁, hsuits, -, -⟩ := ht.make hmake
    obtain ⟨ht₂, hd₂⟩ := ht₁.apply happly
    have hmem := hn change List.mem_cons_self
    obtain ⟨old, hold⟩ := hsuits.exists_old hmem
    obtain ⟨new, hnew⟩ := Change.exists_new hmem
    exact ih ht₂ (fun change hchange => hn change (List.mem_cons_of_mem _ hchange))
      ((congrFun hd₂ n).trans (hnew _ old hold)) (hnew d text hd)

section

variable {rest : List Hold} {change merged : Change} {later : List Change} {w₂ : Workspace}
  (ht : w.Tame rest) (hsuits : change.Suits w.graph.formulas) (happly : w.Does [.effect (.apply change)] w₂)
  (hlater : w₂.Alters later w') (hsame : ∀ next ∈ later, next.targets = change.targets)
  (hmerged : later.foldlM Change.merge? change = some merged)
include ht hsuits happly hlater hsame

/-- A node that the changes are about has a formula when all is done, and it is the one that they set. -/
theorem agree_of_targets {n : NodeId} (hn : n ∈ change.targets) : ∃ text, w'.graph.formulas n = some text ∧
    formulaEditing.applyAll (change :: later) w.graph.formulas n = some text := by
  obtain ⟨ht₂, hd₂⟩ := ht.apply happly
  obtain ⟨old, hold⟩ := hsuits.exists_old hn
  obtain ⟨new, hnew⟩ := Change.exists_new hn
  have hd := hnew _ old hold
  exact hlater.agree ht₂ (fun next hnext => hsame next hnext ▸ hn) ((congrFun hd₂ n).trans hd) hd

include hmerged

theorem exists_merged_applied : ∃ u v, w.Does [.effect (.apply merged)] u ∧
    w.Does ((change :: later).map fun change => .effect (.apply change)) v ∧ u.graph.formulas = v.graph.formulas ∧
      ∀ n, u.graph.formulas n = if n ∈ change.targets then w'.graph.formulas n else w.graph.formulas n := by
  obtain ⟨holds, happlied, -⟩ := Change.of_foldlM_merge? hmerged
  obtain ⟨u, hu, -, hud⟩ := ht.inert.effect (.apply merged)
  obtain ⟨v, hv, -, hvd⟩ := ht.inert.effects ((change :: later).map .apply)
  rw [List.map_map] at hv
  rw [Editing.enactAll_apply] at hvd
  refine ⟨u, v, hu, hv, (hud.trans (happlied _)).trans hvd.symm, fun n => ?_⟩
  split
  next hn =>
    obtain ⟨text, htext, hd⟩ := agree_of_targets ht hsuits happly hlater hsame hn
    rw [htext, ← hd, hud]
    exact congrFun (happlied _) n
  next hn =>
    rw [hud]
    refine Formulas.setAll_of_notMem _ ?_
    rwa [Change.map_fst_news, ← Change.map_fst_olds, holds, Change.map_fst_olds]

theorem exists_merged_reverted : ∃ u v, w'.Does [.effect (.revert merged)] u ∧
    w'.Does ((change :: later).reverse.map fun change => .effect (.revert change)) v ∧
      u.graph.formulas = v.graph.formulas ∧
        ∀ n, u.graph.formulas n = if n ∈ change.targets then w.graph.formulas n else w'.graph.formulas n := by
  obtain ⟨holds, -, hreverted⟩ := Change.of_foldlM_merge? hmerged
  obtain ⟨rest', ht'⟩ := hlater.tame (ht.apply happly).1
  obtain ⟨u, hu, -, hud⟩ := ht'.inert.effect (.revert merged)
  obtain ⟨v, hv, -, hvd⟩ := ht'.inert.effects ((change :: later).reverse.map .revert)
  rw [List.map_map] at hv
  refine ⟨u, v, hu, hv, (hud.trans (hreverted _)).trans hvd.symm, fun n => ?_⟩
  have holds' : u.graph.formulas n = w'.graph.formulas.setAll change.olds.reverse n := by
    rw [hud, ← holds]
    rfl
  rw [holds']
  split
  next hn =>
    obtain ⟨text, htext, -⟩ := agree_of_targets ht hsuits happly hlater hsame hn
    exact Change.setAll_olds_of_mem hsuits hn htext
  next hn => exact Change.setAll_olds_of_notMem _ hn

end

/-- In every state that is reached, if no callback does anything to the graph: a change of formulas that is made leaves
each node with the last text for it, and taking it back brings back the formulas from before. Changes of the same nodes
that are made and applied in turn come to one change. Applied first or taken back last, it does to the formulas what
they all do: the nodes that it is about get the formulas from after the changes, or from before. -/
theorem formulas_of_changes {limit : Nat} {steps : List Step}
    (h : Workspace.run limit {} (steps.map .perform) = some w)
    (hscripts : ∀ watch ∈ w.watches, Unobtrusive watch.script) {edits : List (String × String)}
    {texts : List (NodeId × String)} {change : Change} {w₁ : Workspace} (hnamed : w.nodesNamed edits = .ok texts)
    (hmake : w.makeChange (.formulas edits) = .ok (.ok change, w₁)) :
    ∃ w₂ w₃, w₁.Does [.effect (.apply change)] w₂ ∧ w₂.Does [.effect (.revert change)] w₃ ∧
      (∀ n, w₂.graph.formulas n = (texts.reverse.lookup n).or (w₁.graph.formulas n)) ∧
      w₃.graph.formulas = w₁.graph.formulas ∧
      ∀ later w', w₂.Alters later w' → (∀ next ∈ later, next.targets = change.targets) →
        ∃ merged, later.foldlM Change.merge? change = some merged ∧
          (∃ u v, w₁.Does [.effect (.apply merged)] u ∧
            w₁.Does ((change :: later).map fun change => .effect (.apply change)) v ∧
            u.graph.formulas = v.graph.formulas ∧
            ∀ n, u.graph.formulas n =
              if n ∈ change.targets then w'.graph.formulas n else w₁.graph.formulas n) ∧
          ∃ u v, w'.Does [.effect (.revert merged)] u ∧
            w'.Does ((change :: later).reverse.map fun change => .effect (.revert change)) v ∧
            u.graph.formulas = v.graph.formulas ∧
            ∀ n, u.graph.formulas n =
              if n ∈ change.targets then w₁.graph.formulas n else w'.graph.formulas n := by
  have ht : w.Tame [] := ⟨sound_of_run h, attended_of_run h, hscripts⟩
  obtain ⟨ht₁, hsuits, hnews, first, hfirst⟩ := ht.make hmake
  obtain rfl : texts = change.news := Except.ok.inj (hnamed.symm.trans hnews)
  obtain ⟨w₂, happly, hinert₂, hd₂⟩ := ht₁.inert.effect (.apply change)
  obtain ⟨w₃, hrevert, -, hd₃⟩ := hinert₂.effect (.revert change)
  rw [hd₂] at hd₃
  refine ⟨w₂, w₃, happly, hrevert, fun n => (congrFun hd₂ n).trans (Change.setAll_news hsuits n),
    hd₃.trans (Change.setAll_olds hsuits), fun later w' hlater hsame => ?_⟩
  obtain ⟨merged, hmerged⟩ : ∃ merged, later.foldlM Change.merge? change = some merged := by
    rw [hfirst] at hsame ⊢
    exact Change.exists_merged (hlater.formulas (ht₁.apply happly).1) hsame
  exact ⟨merged, hmerged, exists_merged_applied ht₁ hsuits happly hlater hsame hmerged,
    exists_merged_reverted ht₁ hsuits happly hlater hsame hmerged⟩

/-- "a" is watched by one that asks, and turns dirty with each edit. -/
def revertedSteps : List Step :=
  [.record "r" none, .expression "r" "a" "a" "1", .expression "r" "b" "b" "2", .read "b", .watch "x" "a" [.states]]

/-- Of the two edits of "a" in each change, the later one stays. -/
theorem formulas_of_two_changes :
    ∃ w texts change w₁ w₂ next w' merged u v n, Workspace.run 100 {} (revertedSteps.map .perform) = some w ∧
      (∀ watch ∈ w.watches, Unobtrusive watch.script) ∧
      w.nodesNamed [("a", "3"), ("b", "a + 1"), ("a", "4")] = .ok texts ∧
      w.makeChange (.formulas [("a", "3"), ("b", "a + 1"), ("a", "4")]) = .ok (.ok change, w₁) ∧
      w₁.Does [.effect (.apply change)] w₂ ∧ w₂.Alters [next] w' ∧ next.targets = change.targets ∧
      w.handles["a"]? = some n ∧ w₁.graph.formulas n = some "1" ∧ w₂.graph.formulas n = some "4" ∧
      w'.graph.formulas n = some "6" ∧ [next].foldlM Change.merge? change = some merged ∧
      w₁.Does [.effect (.apply merged)] u ∧ u.graph.formulas n = some "6" ∧
      w'.Does [.effect (.revert merged)] v ∧ v.graph.formulas n = some "1" := by
  have hrun : ((Workspace.run 100 {} (revertedSteps.map .perform)).bind fun w =>
      (w.nodesNamed [("a", "3"), ("b", "a + 1"), ("a", "4")]).toOption.bind fun texts =>
      (w.makeChange (.formulas [("a", "3"), ("b", "a + 1"), ("a", "4")])).toOption.bind fun made =>
      made.1.toOption.bind fun change =>
      (made.2.run 100 [.effect (.apply change)]).bind fun w₂ =>
      (w₂.makeChange (.formulas [("a", "5"), ("b", "2 + a"), ("a", "6")])).toOption.bind fun made' =>
      made'.1.toOption.bind fun next =>
      (made'.2.run 100 [.effect (.apply next)]).bind fun w' =>
      w.handles["a"]?.map fun n =>
        (w.watches.all (fun watch => watch.script.all Step.asks), decide (next.targets = change.targets),
          decide (n ∈ change.targets), [made.2.graph.formulas n, w₂.graph.formulas n, w'.graph.formulas n])) =
      some (true, true, true, [some "1", some "4", some "6"]) := by
    decide +kernel
  simp only [Option.bind_eq_some_iff, Option.map_eq_some_iff, toOption_eq_some, Prod.mk.injEq, List.cons.injEq,
    and_true, decide_eq_true_eq] at hrun
  obtain ⟨w, hw, texts, hnamed, ⟨_, w₁⟩, hmade, change, rfl, w₂, happly, ⟨_, w₃⟩, hmade', next, rfl, w', happly', n, hn,
    hasks, htargets, hmem, hbefore, hbetween, hafter⟩ := hrun
  have hscripts : ∀ watch ∈ w.watches, Unobtrusive watch.script := fun watch hwatch =>
    unobtrusive_of_asks fun step hstep =>
      List.all_eq_true.mp (Array.all_eq_true_iff_forall_mem.mp hasks watch hwatch) step hstep
  obtain ⟨w₂', -, happlied, -, -, -, hchanges⟩ := formulas_of_changes hw hscripts hnamed hmade
  obtain rfl := happlied.unique ⟨100, happly⟩
  have hlater : w₂'.Alters [next] w' := .cons hmade' ⟨100, happly'⟩ (.nil w')
  obtain ⟨merged, hmerged, ⟨u, -, hu, -, -, hunodes⟩, v, -, hv, -, -, hvnodes⟩ :=
    hchanges [next] w' hlater (by simpa using htargets)
  refine ⟨w, texts, change, w₁, w₂', next, w', merged, u, v, n, hw, hscripts, hnamed, hmade, happlied, hlater,
    htargets, hn, hbefore, hbetween, hafter, hmerged, hu, ?_, hv, ?_⟩
  · rw [hunodes, if_pos hmem, hafter]
  · rw [hvnodes, if_pos hmem, hbefore]

end Workspace

end FormulaGraph
