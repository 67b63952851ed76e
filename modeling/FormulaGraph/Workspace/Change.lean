import FormulaGraph.Graph.Edit
import FormulaGraph.History

/-! Changes to the nodes of a graph that can be applied and reverted. What could fail is tried out when a
change is made. -/

namespace FormulaGraph

structure FormulaEdit where
  target : NodeId
  old : String
  new : String
deriving DecidableEq, Repr

inductive Change where
  | formulas (edits : List FormulaEdit)
  | value (target : NodeId) (old new : Value)
  /-- Changes nothing but leaves a mark in the log. -/
  | marker (name : String)
deriving Repr

namespace Change

def holds : Change → List Hold
  | formulas edits => edits.map (.node ·.target)
  | value target .. => [.node target]
  | marker _ => []

def describe : Change → String
  | formulas [edit] => "set formula to " ++ edit.new
  | formulas edits => "edit " ++ toString edits.length ++ " formulas"
  | value _ _ new => "set value to " ++ new.shown
  | marker name => name

/-- Both changes as one, if they are about the same nodes. -/
def merge? : Change → Change → Option Change
  | formulas edits, formulas later =>
    if edits.map FormulaEdit.target = later.map FormulaEdit.target then
      some (formulas (List.zipWith (fun edit next => { edit with new := next.new }) edits later))
    else none
  | value target old _, value target' _ new =>
    if target = target' then some (value target old new) else none
  | _, _ => none

end Change

namespace Graph

/-- The edits with the formulas they replace. -/
def formulaEdits (g : Graph) (edits : List (NodeId × String)) : List FormulaEdit :=
  edits.map fun (n, text) => ⟨n, (g.node n).formula?.getD "", text⟩

/-- A change holds its nodes. -/
def formulaChange (g : Graph) (edits : List (NodeId × String)) : Edited Change × Graph :=
  match g.checkFormulas edits with
  | (.error fault, g) => (.error fault, g)
  | (.ok (), g) =>
    let change := Change.formulas (g.formulaEdits edits)
    (.ok change, g.retainAll change.holds)

def valueChange (g : Graph) (n : NodeId) (new : Value) : Edited Change × Graph :=
  if (g.node n).isInput then
    match g.read n with
    | (.error e, g) => (.error (.formula e), g)
    | (.ok old, g) =>
      let change := Change.value n old new
      (.ok change, g.retainAll change.holds)
  else (.error .notInput, g)

end Graph

end FormulaGraph
