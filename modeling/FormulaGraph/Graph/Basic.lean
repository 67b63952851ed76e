import FormulaGraph.Graph.Arena
import FormulaGraph.Formula.Error
import Std.Data.TreeMap

/-! A graph of nodes whose values follow from one another, and records that give nodes their names.
Nodes and records are counted: they live as long as something holds them. -/

namespace FormulaGraph

abbrev NodeId := Nat

abbrev RecordId := Nat

/-- What is told when a node turns dirty. -/
inductive Listener where
  | node (n : NodeId)
  | callback (key : Nat)
deriving DecidableEq, Repr

/-- A listener's place with the node it listens to. -/
structure Ticket where
  source : NodeId
  slot : Nat
  generation : UInt32
deriving DecidableEq, Repr

/-- A formula that has been built. -/
structure Tree where
  text : String
  root : NodeId
  ticket : Ticket
deriving Repr

/-- The formula of an expression, which is built when the expression is next read. -/
inductive Source where
  | unbuilt (text : String)
  | built (tree : Tree)
  | edited (text : String) (tree : Tree)
deriving Repr

namespace Source

def text : Source → String
  | unbuilt text => text
  | built tree => tree.text
  | edited text _ => text

def tree? : Source → Option Tree
  | unbuilt _ => none
  | built tree | edited _ tree => some tree

/-- The text that waits to be built. -/
def pending? : Source → Option String
  | unbuilt text | edited text _ => some text
  | built _ => none

def edit (source : Source) (text : String) : Source :=
  match source.tree? with
  | none => unbuilt text
  | some tree => edited text tree

end Source

inductive Node where
  | constant (value : Value)
  /-- Set from outside. -/
  | input (value : Value)
  | calculation (operation : Operation) (operands : List NodeId) (offset : Nat)
      (tickets : List Ticket)
  /-- The record is where its names are looked up; it is not held. -/
  | expression (scope : RecordId) (source : Source)
deriving Repr

namespace Node

def kind : Node → String
  | constant _ => "constant"
  | input _ => "variable"
  | calculation .. => "calculation"
  | expression .. => "expression"

def isInput : Node → Bool
  | input _ => true
  | _ => false

def isExpression : Node → Bool
  | expression .. => true
  | _ => false

def formula? : Node → Option String
  | expression _ source => some source.text
  | _ => none

/-- The nodes it reads, in the order it reads them. -/
def dependencies : Node → List NodeId
  | constant _ | input _ => []
  | calculation _ operands _ _ => operands
  | expression _ source => source.tree?.toList.map Tree.root

end Node

structure Cell where
  node : Node
  cache : Option Value
  dirty : Bool
  evaluating : Bool := false
  evaluations : Nat := 0
  listeners : Arena Listener := {}
  owners : Nat
deriving Repr

def Cell.absent : Cell := { node := .constant (.bool false), cache := none, dirty := false, owners := 0 }

/-- What a name in a record stands for. -/
inductive Member where
  | node (n : NodeId)
  | record (r : RecordId)
  | list (items : List Member)
deriving Repr

structure Record where
  members : Std.TreeMap String Member := {}
  parent : Option RecordId := none
  owners : Nat

structure Graph where
  cells : Array Cell := #[]
  records : Array Record := #[]

namespace Graph

def cell (g : Graph) (n : NodeId) : Cell := g.cells[n]?.getD Cell.absent

def record (g : Graph) (r : RecordId) : Record := g.records[r]?.getD { owners := 0 }

def node (g : Graph) (n : NodeId) : Node := (g.cell n).node

def isLive (g : Graph) (n : NodeId) : Bool := 0 < (g.cell n).owners

def modifyCell (g : Graph) (n : NodeId) (f : Cell → Cell) : Graph :=
  { g with cells := g.cells.modify n f }

def modifyRecord (g : Graph) (r : RecordId) (f : Record → Record) : Graph :=
  { g with records := g.records.modify r f }

def dependencies (g : Graph) (n : NodeId) : List NodeId := (g.node n).dependencies

/-- Whether there is anything left to tell. -/
def hears (g : Graph) : Listener → Bool
  | .node n => g.isLive n
  | .callback _ => true

def listening (g : Graph) (n : NodeId) : List Listener :=
  (g.cell n).listeners.listeners.filter g.hears

def subscribe (g : Graph) (source : NodeId) (listener : Listener) : Ticket × Graph :=
  let ((slot, generation), listeners) := (g.cell source).listeners.insert listener
  (⟨source, slot, generation⟩, g.modifyCell source ({ · with listeners }))

/-- A node that is gone has no listeners to remove. -/
def unsubscribe (g : Graph) (t : Ticket) : Graph :=
  if g.isLive t.source then
    g.modifyCell t.source fun c => { c with listeners := c.listeners.remove t.slot t.generation }
  else g

def addCell (g : Graph) (node : Node) (cache : Option Value) : NodeId × Graph :=
  (g.cells.size, { g with cells := g.cells.push { node, cache, dirty := cache.isNone, owners := 1 } })

def addConstant (g : Graph) (value : Value) : NodeId × Graph := g.addCell (.constant value) (some value)

def addInput (g : Graph) (value : Value) : NodeId × Graph := g.addCell (.input value) (some value)

def addExpression (g : Graph) (scope : RecordId) (text : String) : NodeId × Graph :=
  g.addCell (.expression scope (.unbuilt text)) none

def subscribeAll (g : Graph) (sources : List NodeId) (listener : Listener) : List Ticket × Graph :=
  match sources with
  | [] => ([], g)
  | source :: sources =>
    let (ticket, g) := g.subscribe source listener
    let (tickets, g) := g.subscribeAll sources listener
    (ticket :: tickets, g)

/-- Takes over one hold on each operand, and listens to each. -/
def addCalculation (g : Graph) (operation : Operation) (operands : List NodeId) (offset : Nat) :
    NodeId × Graph :=
  let (tickets, g) := g.subscribeAll operands (.node g.cells.size)
  g.addCell (.calculation operation operands offset tickets) none

end Graph

end FormulaGraph
