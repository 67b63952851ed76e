import FormulaGraph.Graph.Read

/-! Changes from outside. A change makes a node dirty; who is to be told then is handed on. Formulas can
be tried out before they are put in place. -/

namespace FormulaGraph

inductive EditFault where
  | notExpression
  | notInput
  | formula (error : FormulaError)
deriving Repr

def EditFault.message : EditFault → String
  | notExpression => "property is not formula-backed"
  | notInput => "property is not a variable"
  | formula error => error.message

abbrev Edited (α : Type) := Except EditFault α

namespace Graph

def touch (g : Graph) (n : NodeId) : Graph := g.modifyCell n ({ · with dirty := true })

/-- Makes a node dirty, and says whom to tell. -/
def dirtied (g : Graph) (n : NodeId) : List Listener × Graph := ((g.touch n).listening n, g.touch n)

/-- A dependent that is told turns dirty and has its own listeners told at once. One that was dirty
already has told them before. -/
def tell (g : Graph) (n : NodeId) : List Listener × Graph :=
  if g.isLive n && !(g.cell n).dirty then g.dirtied n else ([], g)

/-- Nothing happens if the value is the same as before. -/
def setInput (g : Graph) (n : NodeId) (value : Value) : Edited (List Listener × Graph) :=
  match g.node n with
  | .input old =>
    if old == value then .ok ([], g)
    else .ok ((g.modifyCell n ({ · with node := .input value })).dirtied n)
  | _ => .error .notInput

/-- Nothing happens if the text is the same as before. -/
def setFormula (g : Graph) (n : NodeId) (text : String) : Edited (List Listener × Graph) :=
  match g.node n with
  | .expression scope source =>
    if source.text = text then .ok ([], g)
    else .ok ((g.modifyCell n ({ · with node := .expression scope (source.edit text) })).dirtied n)
  | _ => .error .notExpression

/-- Tries a formula out for one expression. -/
def checkFormula (g : Graph) (n : NodeId) (text : String) : Edited Unit × Graph :=
  match g.node n with
  | .expression scope _ =>
    match (buildTree readNode n scope text).run.run g with
    | (.ok root, g) => (.ok (), g.release [.node root])
    | (.error e, g) => (.error (.formula e), g)
  | _ => (.error .notExpression, g)

/-- Builds a formula for each edit. Of two for one expression, the later one stays. -/
def buildAll (g : Graph) (replaced : Replaced) :
    List (NodeId × String) → Edited Replaced × Graph
  | [] => (.ok replaced, g)
  | (n, text) :: edits =>
    match g.node n with
    | .expression scope _ =>
      if g.scopeIsLive scope then
        match g.parse scope text with
        | (.ok root, g) =>
          let g := g.release ((replaced.lookup n).toList.map .node)
          g.buildAll ((n, root) :: replaced.filter (·.1 ≠ n)) edits
        | (.error e, g) => (.error (.formula e), g.release (replaced.map (.node ·.2)))
      else
        (.error (.formula (ParseFault.scopeGone.at 0)), g.release (replaced.map (.node ·.2)))
    | _ => (.error .notExpression, g.release (replaced.map (.node ·.2)))

/-- The text of the first edit whose expression would come to read itself. -/
def cyclicEdit? (g : Graph) (replaced : Replaced) (edits : List (NodeId × String)) :
    Option String :=
  (edits.find? fun (n, _) =>
    match replaced.lookup n with
    | some root => g.reaches replaced root n
    | none => false).map (·.2)

/-- Tries formulas out that are to be put in place together. -/
def checkFormulas (g : Graph) (edits : List (NodeId × String)) : Edited Unit × Graph :=
  match g.buildAll [] edits with
  | (.error fault, g) => (.error fault, g)
  | (.ok replaced, g) =>
    let result := match g.cyclicEdit? replaced edits with
      | some text => .error (.formula (cycleError.attach text))
      | none => .ok ()
    (result, g.release (replaced.map (.node ·.2)))

end Graph

end FormulaGraph
