import FormulaGraph.Proofs.Expanding
import FormulaGraph.Proofs.Rooting

/-! The formula of an expression, kept field by field. Whatever is edited, built or refused, the fields go together: if
nothing waits to be built, there is a tree in place, and the formula is its text. -/

namespace FormulaGraph

open FormulaGraph.Graph

structure Parts where
  formula : String
  /-- The text of the tree in place. -/
  installed : String := ""
  root : Option NodeId := none
  /-- Whether the formula is to be built when it is next read. -/
  waits : Bool := true
  /-- The place that listens to the root. -/
  ticket : Option Ticket := none
deriving DecidableEq, Repr

namespace Parts

def edit (p : Parts) (text : String) : Parts := { p with formula := text, waits := true }

def accept (p : Parts) (root : NodeId) (ticket : Ticket) : Parts :=
  { p with installed := p.formula, root := some root, waits := false, ticket := some ticket }

/-- The formula is that of the tree in place again. -/
def refuse (p : Parts) : Parts := { p with formula := p.installed, waits := false }

/-- What they stand for if they go together. -/
def source (p : Parts) : Source :=
  match p.root, p.ticket with
  | some root, some ticket =>
    if p.waits then .edited p.formula ⟨p.installed, root, ticket⟩ else .built ⟨p.installed, root, ticket⟩
  | _, _ => .unbuilt p.formula

structure Consistent (p : Parts) : Prop where
  listens : p.ticket.isSome = p.root.isSome
  settled : p.waits = false → p.root.isSome = true ∧ p.formula = p.installed
  fresh : p.root = none → p.installed = ""

end Parts

namespace Source

def parts : Source → Parts
  | unbuilt text => { formula := text }
  | built tree => ⟨tree.text, tree.text, some tree.root, false, some tree.ticket⟩
  | edited text tree => ⟨text, tree.text, some tree.root, true, some tree.ticket⟩

variable {source : Source} {text : String}

theorem source_parts : source.parts.source = source := by cases source <;> rfl

theorem formula_parts : source.parts.formula = source.text := by cases source <;> rfl

theorem consistent_parts : source.parts.Consistent := by
  cases source with
  | unbuilt text => exact ⟨rfl, nofun, fun _ => rfl⟩
  | built tree => exact ⟨rfl, fun _ => ⟨rfl, rfl⟩, nofun⟩
  | edited text tree => exact ⟨rfl, nofun, nofun⟩

theorem parts_edit : (source.edit text).parts = source.parts.edit text := by cases source <;> rfl

end Source

namespace Parts

variable {p : Parts}

/-- Parts that go together are found again. -/
theorem Consistent.parts_source (h : p.Consistent) : p.source.parts = p := by
  obtain ⟨formula, installed, root, waits, ticket⟩ := p
  cases root with
  | none =>
    cases ticket with
    | some => cases h.listens
    | none =>
      cases waits with
      | true =>
        obtain rfl : installed = "" := h.fresh rfl
        rfl
      | false => cases (h.settled rfl).1
  | some root =>
    cases ticket with
    | none => cases h.listens
    | some ticket =>
      cases waits with
      | true => rfl
      | false =>
        obtain rfl : formula = installed := (h.settled rfl).2
        rfl

namespace Consistent

theorem edit (h : p.Consistent) (text : String) : (p.edit text).Consistent :=
  ⟨h.listens, nofun, h.fresh⟩

theorem accept (p : Parts) (root : NodeId) (ticket : Ticket) : (p.accept root ticket).Consistent :=
  ⟨rfl, fun _ => ⟨rfl, rfl⟩, nofun⟩

theorem refuse (h : p.Consistent) (hr : p.root.isSome = true) : p.refuse.Consistent :=
  ⟨h.listens, fun _ => ⟨hr, rfl⟩, h.fresh⟩

end Consistent

end Parts

/-- Puts the parts in the place of those that are there, with an alarm if they would not be found there again. -/
def keepParts (alarm : FormulaError) (n : NodeId) (scope : RecordId) (p : Parts) : Reading Unit :=
  if p.source.parts = p then setSource n scope p.source else throw alarm

/-- Builds a formula that waits. If it is refused it goes on waiting, unless there is a tree in place. -/
def rebuildParts (alarm : FormulaError) (read : Reader) (n : NodeId) (scope : RecordId) (p : Parts) : Reading Unit := do
  match ← attempt (buildTree read n scope p.formula) with
  | .ok root =>
    let ticket ← modifyGet (·.subscribe root (.node n))
    keepParts alarm n scope (p.accept root ticket)
    giveUp (p.ticket.toList.map .ticket ++ p.root.toList.map .node)
  | .error e =>
    if p.root.isSome then keepParts alarm n scope p.refuse
    throw e

def Node.parts? : Node → Option Parts
  | .expression _ source => some source.parts
  | _ => none

/-- Reads through the tree in place, with an alarm if there is none. -/
def readInstalled (alarm : FormulaError) (read : Reader) (n : NodeId) : Reading Value := do
  let some p := (← getCell n).node.parts? | throw alarm
  let some root := p.root | throw alarm
  ExceptT.mk do return (← (read root).run).mapError (·.attach p.installed)

/-- Works a node out from the parts of its formula, which are looked up anew once they have been built. -/
def computeParts (alarm : FormulaError) (read : Reader) (n : NodeId) : Reading Value := do
  match (← getCell n).node with
  | .expression scope source => do
    if source.parts.waits then rebuildParts alarm read n scope source.parts
    readInstalled alarm read n
  | _ => compute read n

/-- Nothing happens if the text is the same as before. There is an alarm if the parts would not be found again. -/
def Graph.setFormulaParts (alarm : EditFault) (g : Graph) (n : NodeId) (text : String) :
    Edited (List Listener × Graph) :=
  match g.node n with
  | .expression scope source =>
    if source.parts.formula = text then .ok ([], g)
    else if (source.parts.edit text).source.parts = source.parts.edit text then
      .ok ((g.modifyCell n ({ · with node := .expression scope (source.parts.edit text).source })).dirtied n)
    else .error alarm
  | _ => .error .notExpression

section

variable {g : Graph} {n : NodeId} {scope : RecordId} {source : Source} {tree : Tree} {read : Reader}

theorem run_rebuildParts (alarm : FormulaError) (read : Reader) (n : NodeId) (scope : RecordId) (source : Source)
    (g : Graph) :
    (rebuildParts alarm read n scope source.parts).run.run g =
      match (buildTree read n scope source.text).run.run g with
      | (.ok root, g') => (.ok (), ((installTree n scope source.text root source.tree?).run g').2)
      | (.error e, g') =>
        (.error e, match source.tree? with
          | some old => g'.modifyCell n fun c => { c with node := .expression scope (.built old) }
          | none => g') := by
  rw [rebuildParts, run_bind_except, run_attempt, Source.formula_parts]
  dsimp only
  generalize (buildTree read n scope source.text).run.run g = built
  obtain ⟨e | root, g'⟩ := built
  · cases source with
    | unbuilt text => rfl
    | built tree | edited text tree =>
      dsimp only
      rw [keepParts, if_pos (Source.consistent_parts.refuse rfl).parts_source]
      rfl
  · dsimp only
    simp only [keepParts, if_pos (Parts.Consistent.accept _ _ _).parts_source]
    cases source <;> rfl

theorem run_readInstalled (alarm : FormulaError) (read : Reader) (hnode : g.node n = .expression scope source)
    (htree : source.tree? = some tree) :
    (readInstalled alarm read n).run.run g =
      (((read tree.root).run.run g).1.mapError (·.attach tree.text), ((read tree.root).run.run g).2) := by
  have hcell : (g.cell n).node = .expression scope source := hnode
  rw [readInstalled, run_bind_except, run_getCell]
  dsimp only
  rw [hcell]
  cases source with
  | unbuilt => cases htree
  | built | edited =>
    cases htree
    rfl

/-- A node is worked out alike, whatever the alarm is. -/
theorem computeParts_eq (alarm : FormulaError) (hread : Expands read) (n : NodeId) :
    computeParts alarm read n = compute read n := by
  refine ExceptT.ext (StateT.ext fun g => ?_)
  have hcell : (g.cell n).node = g.node n := rfl
  rw [computeParts, run_bind_except, run_getCell]
  dsimp only
  rw [hcell]
  cases hnode : g.node n with
  | constant | input | calculation => rfl
  | expression scope source =>
    -- The node is still there when it has been built, so the new tree is found in its place.
    have hlt : n < g.cells.size := lt_size_of_node (by rw [hnode]; nofun)
    have hsize := buildTree_expands hread n scope source.text g
    have hrebuilt := run_rebuildParts alarm read n scope source g
    rw [run_compute, hnode]
    dsimp only
    rw [run_currentTree]
    cases source with
    | built tree => exact run_readInstalled alarm read hnode rfl
    | unbuilt | edited =>
      show (rebuildParts alarm read n scope _ >>= fun _ => readInstalled alarm read n).run.run g = _
      rw [run_bind_except, hrebuilt]
      dsimp only [Source.text, Source.tree?] at hsize ⊢
      generalize (buildTree read n scope _).run.run g = built at hsize ⊢
      obtain ⟨e | root, g'⟩ := built
      · rfl
      · exact run_readInstalled alarm read (node_installTree _ root _ (Nat.lt_of_lt_of_le hlt hsize)) rfl

end

theorem Graph.setFormulaParts_eq (alarm : EditFault) (g : Graph) (n : NodeId) (text : String) :
    g.setFormulaParts alarm n text = g.setFormula n text := by
  rw [setFormulaParts, setFormula]
  cases g.node n with
  | expression scope source =>
    dsimp only
    rw [Source.formula_parts, if_pos (Source.consistent_parts.edit text).parts_source, ← Source.parts_edit,
      Source.source_parts]
  | constant | input | calculation => rfl

namespace Workspace

variable {k : Nat} {steps : List Step} {tasks : List Task} {w : Workspace} {n : NodeId} {scope : RecordId}
  {source : Source}

/-- A live expression listens to the root of its tree, which is live, and which has been built from the text that is
kept with it. -/
theorem exists_ticket_after (h : after k (steps.map .perform) {} = (tasks, w)) (hlive : w.graph.isLive n = true)
    (hnode : w.graph.node n = .expression scope source) {tree : Tree} (htree : source.tree? = some tree) :
    tree.ticket.source = tree.root ∧ w.graph.Registered tree.ticket (.node n) ∧ w.graph.isLive tree.root = true ∧
      w.graph.BuiltUnder (Formerly k steps) scope tree.text tree.root := by
  obtain ⟨hsound, -⟩ := sound_after (P := fun _ => True) (fun _ _ _ _ _ _ => trivial) trivial k steps
  have hrooted := rooted_after k steps
  rw [h] at hsound hrooted
  have hpos : 0 < (w.graph.cell n).owners := of_decide_eq_true hlive
  have htickets : (w.graph.node n).tickets = [tree.ticket] := by rw [hnode, Node.tickets, htree]; rfl
  have hdependencies : w.graph.dependencies n = [tree.root] := by
    rw [Graph.dependencies, hnode, Node.dependencies, htree]; rfl
  have hsources := hsound.accounts.sources n hpos
  rw [htickets, hdependencies] at hsources
  refine ⟨List.singleton_inj.mp hsources, hsound.accounts.listens n _ hpos ?_, decide_eq_true ?_, ?_⟩
  · rw [htickets]
    exact List.mem_singleton_self _
  · exact hsound.accounts.dependency_live hpos (by rw [hdependencies]; exact List.mem_singleton_self _)
  · exact hrooted n scope tree (by rw [hnode, Node.tree?, htree]; rfl)

/-- Whatever is edited and read, in whatever order and however far it has come: if nothing waits to be built, there is
a tree in place and the formula is its text; and where there is one, the expression listens to it. Editing and reading
by parts raises no alarm, so that it never comes to parts that do not go together, nor to an expression without a
tree. -/
theorem parts_of_after (h : after k (steps.map .perform) {} = (tasks, w)) (hlive : w.graph.isLive n = true)
    (hnode : w.graph.node n = .expression scope source) :
    let p := source.parts
    (w.graph.node n).formula? = some p.formula ∧
      (p.waits = false → p.root.isSome = true ∧ p.formula = p.installed) ∧
      (∀ root, p.root = some root → ∃ ticket, p.ticket = some ticket ∧ ticket.source = root ∧
        w.graph.Registered ticket (.node n) ∧ w.graph.isLive root = true ∧
          w.graph.BuiltUnder (Formerly k steps) scope p.installed root) ∧
      (∀ alarm text, w.graph.setFormulaParts alarm n text = w.graph.setFormula n text) ∧
      ∀ alarm limit, computeParts alarm (readWithin limit) n = compute (readWithin limit) n := by
  intro p
  refine ⟨?_, source.consistent_parts.settled, fun root hroot => ?_, ?_, ?_⟩
  · rw [hnode, Source.formula_parts, Node.formula?]
  · cases source with
    | unbuilt => cases hroot
    | built tree | edited text tree =>
      cases hroot
      exact ⟨tree.ticket, rfl, exists_ticket_after h hlive hnode rfl⟩
  · exact fun alarm text => w.graph.setFormulaParts_eq alarm n text
  · exact fun alarm limit => computeParts_eq alarm (readWithin_expands limit) n

/-- An edit that is refused when it is read. -/
def revisedSteps : List Step :=
  [.record "r" none, .expression "r" "a" "a" "1 + 2", .read "a", .setFormula "a" "(", .read "a"]

theorem parts_of_revised :
    ∃ tasks w n scope source root, after 20 (revisedSteps.map .perform) {} = (tasks, w) ∧
      w.handles["a"]? = some n ∧ w.graph.isLive n = true ∧ w.graph.node n = .expression scope source ∧
        source.parts.waits = false ∧ source.parts.formula = "1 + 2" ∧ source.parts.root = some root ∧
          w.graph.BuiltUnder (Formerly 20 revisedSteps) scope "1 + 2" root := by
  have hparts : ((after 20 (revisedSteps.map .perform) {}).2.handles["a"]?.bind fun n =>
      ((after 20 (revisedSteps.map .perform) {}).2.graph.node n).parts?.map fun p =>
        ((after 20 (revisedSteps.map .perform) {}).2.graph.isLive n, p.waits, p.formula)) =
      some (true, false, "1 + 2") := by
    decide +kernel
  generalize hw : after 20 (revisedSteps.map .perform) {} = next at hparts
  obtain ⟨tasks, w⟩ := next
  obtain ⟨n, hn, hparts⟩ := Option.bind_eq_some_iff.mp hparts
  obtain ⟨p, hp, hparts⟩ := Option.map_eq_some_iff.mp hparts
  obtain ⟨hlive, hwaits, hformula⟩ := by
    simpa only [Prod.mk.injEq] using hparts
  cases hnode : w.graph.node n with
  | expression scope source =>
    rw [hnode] at hp
    cases hp
    obtain ⟨-, hsettled, hrooted, -, -⟩ := parts_of_after hw hlive hnode
    obtain ⟨hroot, hinstalled⟩ := hsettled hwaits
    obtain ⟨root, hroot⟩ := Option.isSome_iff_exists.mp hroot
    obtain ⟨ticket, -, -, -, -, hbuilt⟩ := hrooted root hroot
    refine ⟨tasks, w, n, scope, source, root, rfl, hn, hlive, hnode, hwaits, hformula, hroot, ?_⟩
    rwa [← hinstalled, hformula] at hbuilt
  | constant | input | calculation =>
    rw [hnode] at hp
    cases hp

end Workspace

end FormulaGraph
