import FormulaGraph.Workspace.Perform

/-! A workspace works its tasks off one by one; what a task leaves to do comes before the rest. -/

namespace FormulaGraph

def Change.applyTasks : Change → List Task
  | .formulas edits => edits.map fun edit => .setFormula edit.target edit.new
  | .value target _ new => [.setInput target new]
  | .marker _ => []

def Change.revertTasks : Change → List Task
  | .formulas edits => edits.reverse.map fun edit => .setFormula edit.target edit.old
  | .value target old _ => [.setInput target old]
  | .marker _ => []

namespace Workspace

/-- Edits that are part of a change fail silently. -/
def editSilently (w : Workspace) (outcome : Edited (List Listener × Graph)) : Next :=
  match outcome with
  | .ok (listeners, graph) => (listeners.map .tell, { w with graph })
  | .error _ => ([], w)

def tell (w : Workspace) : Listener → Next
  | .node n =>
    let (listeners, graph) := w.graph.tell n
    (listeners.map .tell, { w with graph })
  | .callback key =>
    match w.watches[key]? with
    | some watch => (watch.script.map .perform, w.note (.fired watch.id))
    | none => ([], w)

def affect (w : Workspace) : Effect Change → Next
  | .apply (.marker name) => ([], w.note (.applied name))
  | .apply change => (change.applyTasks, w)
  | .revert (.marker name) => ([], w.note (.reverted name))
  | .revert change => (change.revertTasks, w)
  | .discard change => ([], { w with graph := w.graph.release change.holds })

def advance (w : Workspace) : Task → Next
  | .perform step =>
    match w.perform step with
    | .ok next => next
    | .error id => w.reply (.unknown id)
  | .tell listener => w.tell listener
  | .setInput n value => w.editSilently (w.graph.setInput n value)
  | .setFormula n text => w.editSilently (w.graph.setFormula n text)
  | .effect effect => w.affect effect
  | .release holds => ([], { w with graph := w.graph.release holds })
  | .reply answer => ([], w.note (.answered answer))
  | .replyHistory ok => ([], w.note (.answered (.history (w.history.stateWith ok))))

/-- Nothing comes back if `limit` tasks are not enough: scripts may set one another off forever. -/
def run (limit : Nat) (w : Workspace) : List Task → Option Workspace
  | [] => some w
  | task :: tasks =>
    match limit with
    | 0 => none
    | limit + 1 =>
      let (first, w) := w.advance task
      w.run limit (first ++ tasks)
termination_by structural limit

/-- What there is to report when a step is done. -/
structure Report where
  answer : Answer
  events : List Event
  dirty : List String

/-- More tasks than a step without a loop of scripts ever leaves. -/
def taskLimit : Nat := 100000000

/-- The answer is the last thing logged; what was logged before it came about on the way. -/
def report? (w : Workspace) (step : Step) : Option (Report × Workspace) := do
  let w ← { w with log := [] }.run taskLimit [.perform step]
  match w.log with
  | .answered answer :: log => some (⟨answer, log.reverse, w.dirtyHandles⟩, w)
  | _ => none

end Workspace

end FormulaGraph
