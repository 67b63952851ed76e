import FormulaGraph.Graph.Reach
import FormulaGraph.Graph.Scope
import FormulaGraph.Formula.Tokens

/-! The dirty nodes below a node, in an order in which each comes after those it reads. Working them
out in this order keeps a read from going deep. -/

namespace FormulaGraph

/-- The names in a formula that are not members of something else. -/
def scopeNames : List Token → List String
  | [] => []
  | ⟨_, .symbol .dot⟩ :: ⟨_, .name _⟩ :: tokens => scopeNames tokens
  | ⟨_, .name name⟩ :: tokens => name :: scopeNames tokens
  | _ :: tokens => scopeNames tokens

namespace Graph

def scopeIsLive (g : Graph) (r : RecordId) : Bool := 0 < (g.record r).owners

/-- The nodes that an unbuilt formula names. -/
def namedIn (g : Graph) (r : RecordId) (text : String) : List NodeId :=
  if g.scopeIsLive r then
    match tokenize text with
    | .ok tokens => (scopeNames tokens).filterMap fun name => (g.resolve? r name).bind Member.node?
    | .error _ => []
  else []

/-- What a node reads, or what it names if its formula is not built yet. -/
def inputs (g : Graph) (n : NodeId) : List NodeId :=
  match g.node n with
  | .expression scope source =>
    match source.pending? with
    | some text => g.namedIn scope text
    | none => g.dependencies n
  | _ => g.dependencies n

/-- A node is entered before its inputs and left after them. -/
inductive Visit where
  | enter (n : NodeId)
  | leave (n : NodeId)

/-- Dirty nodes that are not being worked out have to be. -/
def needsWork (g : Graph) (n : NodeId) : Bool := (g.cell n).dirty && !(g.cell n).evaluating

/-- The nodes left so far are in `left`, the last one first. -/
def settleFrom (g : Graph) (visits : List Visit) (m : Marks) (left : List NodeId) : List NodeId :=
  match visits with
  | [] => left.reverse
  | .leave n :: visits => g.settleFrom visits m (n :: left)
  | .enter n :: visits =>
    if _h : g.needsWork n ∧ m.isNew n then
      g.settleFrom ((g.inputs n).reverse.map .enter ++ .leave n :: visits) (m.mark n) left
    else g.settleFrom visits m left
termination_by m.cost (fun n => (g.inputs n).length + 1) + visits.length
decreasing_by
  · simp
  · have := Marks.cost_mark (fun n => (g.inputs n).length + 1) _h.2
    simp only [List.length_append, List.length_map, List.length_reverse, List.length_cons]
    omega
  · simp

def settleOrder (g : Graph) (n : NodeId) : List NodeId :=
  g.settleFrom ((g.inputs n).reverse.map .enter) ((Marks.none g.cells.size).mark n) []

end Graph

end FormulaGraph
