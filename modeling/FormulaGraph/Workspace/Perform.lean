import FormulaGraph.Workspace.Basic

/-! How a workspace goes about each step. What tells listeners is left as tasks, so that a watch that runs
a script in between finds the workspace as it is at that moment. -/

namespace FormulaGraph

namespace Workspace

def reply (w : Workspace) (answer : Answer) : Next := ([.reply answer], w)

def replyMade (w : Workspace) (n : NodeId) : Next := w.reply (.made (some (w.graph.node n).kind))

/-- Takes over a hold on a node that was made for the table. -/
def keepMade (w : Workspace) (id : String) (made : NodeId × Graph) : Next :=
  ({ w with graph := made.2 }.keepNode id made.1).replyMade made.1

/-- Takes over a hold on a node that was made for a record, and for the table with one more. -/
def bindMade (w : Workspace) (scope : RecordId) (name id : String) (made : NodeId × Graph) : Next :=
  w.keepMade id (made.1, made.2.bind scope name made.1)

/-- Replaces each pair of braces. -/
def fillIn (number : List Char) : List Char → List Char
  | '\x7b' :: '\x7d' :: rest => number ++ fillIn number rest
  | c :: rest => c :: fillIn number rest
  | [] => []

def addExpressions (g : Graph) (scope : RecordId) (stem formula : String) (count : Nat) : Graph :=
  (List.range count).foldl (fun g i =>
    let text := String.ofList (fillIn (toString i).toList formula.toList)
    let (n, g) := g.addExpression scope text
    g.insert scope (stem ++ toString (i + 1)) (.node n)) g

def replyMember (w : Workspace) (member : Option Member) : Next :=
  w.reply (.member (member.map w.graph.show))

def listing (record : Record) : String :=
  "Record \x7b members: [" ++ ", ".intercalate (record.members.toList.map (listed ·.1)) ++
    "], has_parent: " ++ (if record.parent.isSome then "true" else "false") ++ " \x7d"

def ticketListing (g : Graph) (t : Ticket) : String :=
  "Subscription \x7b slot: " ++ toString t.slot ++ ", generation: " ++ toString t.generation ++
    ", live: " ++ (if g.isLive t.source then "true" else "false") ++ " \x7d"

/-- Tells the listeners of an edit one after the other. The node is held meanwhile. -/
def edit (w : Workspace) (n : NodeId) (outcome : Edited (List Listener × Graph)) : Next :=
  match outcome with
  | .error fault => w.reply (.fault fault)
  | .ok (listeners, graph) =>
    (listeners.map .tell ++ [.release [.node n], .reply (.done true)],
      { w with graph := graph.retain (.node n) })

def checked (w : Workspace) (outcome : Edited Unit × Graph) : Next :=
  let w := { w with graph := outcome.2 }
  match outcome.1 with
  | .ok () => w.reply (.done true)
  | .error fault => w.reply (.fault fault)

/-- Lets the history have its effects. -/
def keepBooks (w : Workspace) (result : History Change × List (Effect Change)) : Next :=
  (result.2.map .effect ++ [.replyHistory true], { w with history := result.1 })

def keepBooks? (w : Workspace) (result : Option (History Change × List (Effect Change))) : Next :=
  match result with
  | some result => w.keepBooks result
  | none => ([.replyHistory false], w)

/-- A copy of a prepared change has its effect and is given up. -/
def withCopy (w : Workspace) (change : Change) (effect : Effect Change) : Next :=
  ([.effect effect, .effect (.discard change), .reply (.done true)],
    { w with graph := w.graph.retainAll change.holds })

def withCopies (w : Workspace) (changes : List Change) (effects : List (Effect Change)) : Next :=
  (effects.map .effect ++ changes.map (.effect ∘ .discard) ++
      [.reply (.batch changes.length (describeBatch Change.describe changes))],
    { w with graph := w.graph.retainAll (changes.flatMap Change.holds) })

def mergeInto (w : Workspace) (id : String) (a b : Change) : Next :=
  match a.merge? b with
  | some merged => { w with changes := w.changes.insert id merged }.reply (.merged true merged)
  | none => w.reply (.merged false a)

def watch (w : Workspace) (id : String) (n : NodeId) (script : List Step) : Next :=
  let (ticket, graph) := w.graph.subscribe n (.callback w.watches.size)
  ({ w with graph, watches := w.watches.push ⟨id, script⟩ }.keepTicket id ticket).reply (.done true)

def perform (w : Workspace) : Step → Known Next
  | .record id parent => do
    let parent ← parent.mapM w.recordNamed
    let (r, graph) := w.graph.addRecord parent
    return ({ w with graph }.keepRecord id r).reply (.done true)
  | .input scope name id value => do
    return w.bindMade (← w.recordNamed scope) name id (w.graph.addInput value)
  | .expression scope name id formula => do
    let r ← w.recordNamed scope
    return w.bindMade r name id (w.graph.addExpression r formula)
  | .expressions scope stem count formula => do
    let graph := addExpressions w.graph (← w.recordNamed scope) stem formula count
    return { w with graph }.reply (.done true)
  | .insert scope name member => do
    let r ← w.recordNamed scope
    let (member, w) ← w.makeMember member
    return { w with graph := w.graph.insert r name member }.reply (.done true)
  | .push scope name member => do
    let r ← w.recordNamed scope
    let (member, w) ← w.makeMember member
    let (index, graph) := w.graph.push r name member
    return { w with graph }.reply (.index index)
  | .remove scope name => do
    let r ← w.recordNamed scope
    let shown := (w.graph.member? r name).map w.graph.show
    return { w with graph := w.graph.remove r name }.reply (.member shown)
  | .get scope name => return w.replyMember (w.graph.member? (← w.recordNamed scope) name)
  | .find scope name => return w.replyMember (w.graph.find? (← w.recordNamed scope) name)
  | .resolve scope name => return w.replyMember (w.graph.resolve? (← w.recordNamed scope) name)
  | .names scope => return w.reply (.names (w.graph.record (← w.recordNamed scope)).members.keys)
  | .listing scope => return w.reply (.listing (listing (w.graph.record (← w.recordNamed scope))))
  | .handle scope name id => do
    match (w.graph.member? (← w.recordNamed scope) name).bind Member.node? with
    | some n => return w.keepMade id (n, w.graph.retain (.node n))
    | none => return w.reply (.made none)
  | .freeConstant id value => return w.keepMade id (w.graph.addConstant value)
  | .freeInput id value => return w.keepMade id (w.graph.addInput value)
  | .freeExpression id scope formula => do
    return w.keepMade id (w.graph.addExpression (← w.recordNamed scope) formula)
  | .parse id scope formula => do
    match w.graph.parse (← w.recordNamed scope) formula with
    | (.ok n, graph) => return w.keepMade id (n, graph)
    | (.error e, graph) => return { w with graph }.reply (.fault (.formula e))
  | .clone source id => do
    let n ← w.nodeNamed source
    return w.keepMade id (n, w.graph.retain (.node n))
  | .dropNode id =>
    match w.handles[id]? with
    | some n =>
      return { w with handles := w.handles.erase id, graph := w.graph.release [.node n] }.reply
        (.done true)
    | none => return w.reply (.done false)
  | .dropRecord id =>
    match w.records[id]? with
    | some r =>
      return { w with records := w.records.erase id, graph := w.graph.release [.record r] }.reply
        (.done true)
    | none => return w.reply (.done false)
  | .read id => do
    let (result, graph) := w.graph.read (← w.nodeNamed id)
    return { w with graph }.reply (.value result)
  | .set id value => do
    let n ← w.nodeNamed id
    return w.edit n (w.graph.setInput n value)
  | .setFormula id formula => do
    let n ← w.nodeNamed id
    return w.edit n (w.graph.setFormula n formula)
  | .check id formula => return w.checked (w.graph.checkFormula (← w.nodeNamed id) formula)
  | .checkAll edits => return w.checked (w.graph.checkFormulas (← w.nodesNamed edits))
  | .state id => return w.reply (.state (w.graph.stateOf (← w.nodeNamed id)))
  | .states =>
    return w.reply (.states (w.handles.toList.map fun (id, n) => (id, w.graph.stateOf n)))
  | .depends a b => return w.reply (.depends (w.graph.dependsOn (← w.nodeNamed a) (← w.nodeNamed b)))
  | .same a b => return w.reply (.same ((← w.nodeNamed a) == (← w.nodeNamed b)))
  | .watch id source script => return w.watch id (← w.nodeNamed source) script
  | .unwatch id =>
    match w.tickets[id]? with
    | some t =>
      return { w with tickets := w.tickets.erase id, graph := w.graph.unsubscribe t }.reply
        (.done true)
    | none => return w.reply (.done false)
  | .ticket id => return w.reply (.ticket (w.tickets[id]?.map (ticketListing w.graph)))
  | .openBatch => return w.keepBooks (w.history.openBatch, [])
  | .closeBatch => return w.keepBooks w.history.closeBatch
  | .abandonBatch => return w.keepBooks w.history.abandonBatch
  | .markSaved => return w.keepBooks (w.history.markSaved, [])
  | .history => return w.keepBooks (w.history, [])
  | .undo => return w.keepBooks? w.history.undo?
  | .redo => return w.keepBooks? w.history.redo?
  | .make change => do
    match ← w.makeChange change with
    | (.ok change, w) => return w.keepBooks (w.history.make Change.merge? change)
    | (.error fault, w) => return w.reply (.fault fault)
  | .prepare id change => do
    match ← w.makeChange change with
    | (.ok change, w) => return (w.keepChange id change).reply (.change change)
    | (.error fault, w) => return w.reply (.fault fault)
  | .applyChange id => do
    let change ← w.changeNamed id
    return w.withCopy change (.apply change)
  | .revertChange id => do
    let change ← w.changeNamed id
    return w.withCopy change (.revert change)
  | .merge a b => return w.mergeInto a (← w.changeNamed a) (← w.changeNamed b)
  | .batch ids => return w.withCopies (← ids.mapM w.changeNamed) []
  | .applyBatch ids => do
    let changes ← ids.mapM w.changeNamed
    return w.withCopies changes (changes.map .apply)
  | .revertBatch ids => do
    let changes ← ids.mapM w.changeNamed
    return w.withCopies changes (changes.reverse.map .revert)

end Workspace

end FormulaGraph
