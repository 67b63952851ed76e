import FormulaGraph.Workspace.Step
import FormulaGraph.Workspace.Answer
import FormulaGraph.Text.Escaped

/-! A graph with its records, nodes, watches and changes under names, a history, and a log. -/

namespace FormulaGraph

structure Watch where
  id : String
  script : List Step
deriving Repr

structure Workspace where
  graph : Graph := {}
  records : Std.TreeMap String RecordId := {}
  handles : Std.TreeMap String NodeId := {}
  tickets : Std.TreeMap String Ticket := {}
  changes : Std.TreeMap String Change := {}
  history : History Change := {}
  /-- Every watch there ever was, by the key its listener has. -/
  watches : Array Watch := #[]
  log : List Event := []

/-- Something that is left to do. -/
inductive Task where
  | perform (step : Step)
  | tell (listener : Listener)
  | setInput (n : NodeId) (value : Value)
  | setFormula (n : NodeId) (text : String)
  | effect (effect : Effect Change)
  | release (holds : List Hold)
  | reply (answer : Answer)
  | replyHistory (ok : Bool)
deriving Repr

/-- What to do before anything else that is left, and the workspace in between. -/
abbrev Next := List Task × Workspace

/-- Fails with a name that nothing is kept under. -/
abbrev Known (α : Type) := Except String α

namespace Workspace

def nodeNamed (w : Workspace) (id : String) : Known NodeId :=
  match w.handles[id]? with
  | some n => .ok n
  | none => .error id

def recordNamed (w : Workspace) (id : String) : Known RecordId :=
  match w.records[id]? with
  | some r => .ok r
  | none => .error id

def changeNamed (w : Workspace) (id : String) : Known Change :=
  match w.changes[id]? with
  | some change => .ok change
  | none => .error id

def note (w : Workspace) (event : Event) : Workspace := { w with log := event :: w.log }

/-- Takes a hold over into the table, and gives up what the name stood for. -/
def keepNode (w : Workspace) (id : String) (n : NodeId) : Workspace :=
  let old := w.handles[id]?
  { w with handles := w.handles.insert id n, graph := w.graph.release (old.toList.map .node) }

def keepRecord (w : Workspace) (id : String) (r : RecordId) : Workspace :=
  let old := w.records[id]?
  { w with records := w.records.insert id r, graph := w.graph.release (old.toList.map .record) }

def keepTicket (w : Workspace) (id : String) (t : Ticket) : Workspace :=
  let old := w.tickets[id]?
  { w with tickets := w.tickets.insert id t, graph := w.graph.release (old.toList.map .ticket) }

def keepChange (w : Workspace) (id : String) (change : Change) : Workspace :=
  let old := w.changes[id]?
  { w with
    changes := w.changes.insert id change
    graph := w.graph.release (old.toList.flatMap Change.holds) }

def dirtyHandles (w : Workspace) : List String :=
  (w.handles.toList.filter fun (_, n) => (w.graph.cell n).dirty).map (·.1)

end Workspace

mutual

/-- Makes a member, which holds what it is made of. -/
def Workspace.makeMember (w : Workspace) : NewMember → Known (Member × Workspace)
  | .node id => do
    let n ← w.nodeNamed id
    return (.node n, { w with graph := w.graph.retain (.node n) })
  | .record id => do
    let r ← w.recordNamed id
    return (.record r, { w with graph := w.graph.retain (.record r) })
  | .constant value =>
    let (n, graph) := w.graph.addConstant value
    return (.node n, { w with graph })
  | .list items => do
    let (members, w) ← w.makeMembers items
    return (.list members, w)

def Workspace.makeMembers (w : Workspace) : List NewMember → Known (List Member × Workspace)
  | [] => return ([], w)
  | item :: items => do
    let (member, w) ← w.makeMember item
    let (members, w) ← w.makeMembers items
    return (member :: members, w)

end

namespace Workspace

def nodesNamed (w : Workspace) (edits : List (String × String)) : Known (List (NodeId × String)) :=
  edits.mapM fun (id, text) => return (← w.nodeNamed id, text)

/-- Makes a change, which holds its nodes. -/
def makeChange (w : Workspace) : NewChange → Known (Edited Change × Workspace)
  | .prepared id => do
    let change ← w.changeNamed id
    return (.ok change, { w with graph := w.graph.retainAll change.holds })
  | .marker name => return (.ok (.marker name), w)
  | .formulas edits => do
    let (made, graph) := w.graph.formulaChange (← w.nodesNamed edits)
    return (made, { w with graph })
  | .value id value => do
    let (made, graph) := w.graph.valueChange (← w.nodeNamed id) value
    return (made, { w with graph })

end Workspace

end FormulaGraph
