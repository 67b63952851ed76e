import FormulaGraph.Workspace.Change

/-! What a workspace answers, and what it logs while it works. -/

namespace FormulaGraph

/-- A member as it is shown: the kind of a node, a scope, or a list of shown members. -/
inductive ShownMember where
  | node (kind : String)
  | scope
  | list (items : List ShownMember)
deriving Repr

structure NodeState where
  kind : String
  isInput : Bool
  isExpression : Bool
  formula : Option String
  dirty : Bool
  evaluations : Nat
  listeners : Nat
  dependencies : List String
deriving Repr

structure HistoryState where
  ok : Bool
  size : Nat
  current : Nat
  canUndo : Bool
  canRedo : Bool
  saved : Bool
  isOpen : Bool
  undoText : Option String
  redoText : Option String
  batches : List (List String)
deriving Repr

inductive Answer where
  | done (ok : Bool)
  | fault (fault : EditFault)
  | made (kind : Option String)
  | index (n : Nat)
  | member (shown : Option ShownMember)
  | names (names : List String)
  | listing (text : String)
  | value (result : Checked Value)
  | state (state : NodeState)
  | states (states : List (String × NodeState))
  | depends (answer : Bool)
  | same (answer : Bool)
  | ticket (text : Option String)
  | history (state : HistoryState)
  | change (change : Change)
  | merged (merged : Bool) (change : Change)
  | batch (size : Nat) (text : String)
  | unknown (id : String)
deriving Repr

inductive Event where
  | fired (id : String)
  | applied (marker : String)
  | reverted (marker : String)
  | answered (answer : Answer)
deriving Repr

mutual

def Graph.show (g : Graph) : Member → ShownMember
  | .node n => .node (g.node n).kind
  | .record _ => .scope
  | .list items => .list (g.showAll items)

def Graph.showAll (g : Graph) : List Member → List ShownMember
  | [] => []
  | item :: items => g.show item :: g.showAll items

end

def Graph.stateOf (g : Graph) (n : NodeId) : NodeState where
  kind := (g.node n).kind
  isInput := (g.node n).isInput
  isExpression := (g.node n).isExpression
  formula := (g.node n).formula?
  dirty := (g.cell n).dirty
  evaluations := (g.cell n).evaluations
  listeners := (g.listening n).length
  dependencies := (g.dependencies n).map fun d => (g.node d).kind

def History.stateWith (h : History Change) (ok : Bool) : HistoryState where
  ok := ok
  size := h.batches.length
  current := h.current
  canUndo := h.canUndo
  canRedo := h.canRedo
  saved := h.isSaved
  isOpen := h.isOpen
  undoText := h.undoBatch?.map (describeBatch Change.describe)
  redoText := h.redoBatch?.map (describeBatch Change.describe)
  batches := h.batches.map (·.map Change.describe)

end FormulaGraph
