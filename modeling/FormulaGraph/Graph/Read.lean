import FormulaGraph.Formula.Evaluate
import FormulaGraph.Graph.Settle

/-! Reading a node works its value out if it is dirty, and that of every dirty node it needs. Formulas
that were edited are built on the way. A failure is not kept: the next read tries again. -/

namespace FormulaGraph

abbrev Reading := ExceptT FormulaError (StateM Graph)

/-- How a node asks for the value of another one. -/
abbrev Reader := NodeId → Reading Value

/-- Goes on with the outcome, whatever it is. -/
def attempt {α : Type} (x : Reading α) : Reading (Checked α) := ExceptT.lift x.run

def cycleError : FormulaError := { cause := .cycle, offset := 0 }

def depthError : FormulaError := { cause := .depth, offset := 0 }

def getCell (n : NodeId) : Reading Cell := return (← get).cell n

def setEvaluating (n : NodeId) (evaluating : Bool) : StateM Graph Unit :=
  modify (·.modifyCell n ({ · with evaluating }))

def setSource (n : NodeId) (scope : RecordId) (source : Source) : StateM Graph Unit :=
  modify (·.modifyCell n ({ · with node := .expression scope source }))

def giveUp (holds : List Hold) : StateM Graph Unit := modify (·.release holds)

def foundIn (member : Member) : StateM Graph (Found NodeId RecordId) :=
  match member with
  | .node n => do
    modify (·.retain (.node n))
    return .value n
  | .record r => return .scope r
  | .list _ => return .list

/-- Builds formulas as nodes of the graph. The builder holds what it has found and made until a
calculation takes it over. -/
def graphBuilder (read : Reader) : Builder (StateM Graph) NodeId RecordId where
  literal value := modifyGet (·.addConstant value)
  calculate operation operands offset := do
    let n ← modifyGet (·.addCalculation operation operands offset)
    match ← (read n).run with
    | .ok _ => return .ok n
    | .error e =>
      giveUp [.node n]
      return .error e
  kind n := return (← (read n).run).map Value.kind
  resolve r name := do
    match (← get).resolve? r name with
    | some member => return some (← foundIn member)
    | none => return none
  discard nodes := giveUp (nodes.map .node)

/-- Builds `text` in the scope of an expression that must not come to read itself. -/
def buildTree (read : Reader) (n : NodeId) (scope : RecordId) (text : String) : Reading NodeId := do
  if !(← get).scopeIsLive scope then throw (ParseFault.scopeGone.at 0)
  let root ← ExceptT.mk ((graphBuilder read).parse scope text)
  if (← get).dependsOn root n then
    giveUp [.node root]
    throw (cycleError.attach text)
  return root

/-- Puts a new tree in the place of the old one. -/
def installTree (n : NodeId) (scope : RecordId) (text : String) (root : NodeId)
    (old : Option Tree) : StateM Graph Tree := do
  let ticket ← modifyGet (·.subscribe root (.node n))
  let tree : Tree := ⟨text, root, ticket⟩
  setSource n scope (.built tree)
  giveUp (old.toList.flatMap fun old => [.ticket old.ticket, .node old.root])
  return tree

/-- The tree of an expression, built first if its formula was edited. An edit that cannot be built is
taken back, unless nothing has been built yet. -/
def currentTree (read : Reader) (n : NodeId) (scope : RecordId) (source : Source) : Reading Tree :=
  match source with
  | .built tree => return tree
  | .unbuilt text => do
    installTree n scope text (← buildTree read n scope text) none
  | .edited text old => do
    match ← attempt (buildTree read n scope text) with
    | .ok root => installTree n scope text root (some old)
    | .error e =>
      setSource n scope (.built old)
      throw e

def compute (read : Reader) (n : NodeId) : Reading Value := do
  match (← getCell n).node with
  | .constant value | .input value => return value
  | .calculation operation operands offset _ => do
    let values ← operands.mapM read
    ExceptT.mk (return applyAt operation values offset)
  | .expression scope source => do
    let tree ← currentTree read n scope source
    ExceptT.mk do return (← (read tree.root).run).mapError (·.attach tree.text)

/-- Notes the outcome of working a value out. -/
def keepResult (n : NodeId) (result : Checked Value) : StateM Graph Unit :=
  modify (·.modifyCell n fun c =>
    let c := { c with evaluating := false, evaluations := c.evaluations + 1 }
    match result with
    | .ok value => { c with cache := some value, dirty := false }
    | .error _ => c)

def evaluateNode (read : Reader) (n : NodeId) : Reading Value := do
  if (← getCell n).evaluating then throw cycleError
  setEvaluating n true
  let result ← attempt (compute read n)
  keepResult n result
  ExceptT.mk (return result)

/-- Works out the nodes that are still dirty, up to the first failure. Whoever reads that node next
meets the failure again. -/
def settleAll (read : Reader) : List NodeId → StateM Graph Unit
  | [] => return
  | n :: rest => do
    if ((← get).cell n).dirty then
      match ← (evaluateNode read n).run with
      | .ok _ => settleAll read rest
      | .error _ => return
    else settleAll read rest

/-- The node counts as being worked out meanwhile, so that reading it back is a cycle. -/
def settle (read : Reader) (n : NodeId) : StateM Graph Unit := do
  setEvaluating n true
  settleAll read ((← get).settleOrder n)
  setEvaluating n false

def readWith (read : Reader) (n : NodeId) : Reading Value := do
  let c ← getCell n
  match if c.dirty then none else c.cache with
  | some value => return value
  | none =>
    if c.evaluating then throw cycleError
    settle read n
    evaluateNode read n

/-- Reads through at most `limit` nodes on the way down. -/
def readWithin : Nat → Reader
  | 0, _ => throw depthError
  | limit + 1, n => readWith (readWithin limit) n

/-- On the way down each node is worked out once, with at most one new node for it. -/
def Graph.depthLimit (g : Graph) : Nat := 2 * g.cells.size + 2

def readNode (n : NodeId) : Reading Value := do readWithin (← get).depthLimit n

namespace Graph

/-- The value of a node. -/
def read (g : Graph) (n : NodeId) : Checked Value × Graph := (readNode n).run.run g

/-- Builds a formula in a scope. The caller holds the node. -/
def parse (g : Graph) (scope : RecordId) (formula : String) : Checked NodeId × Graph :=
  ((graphBuilder readNode).parse scope formula).run g

end Graph

end FormulaGraph
