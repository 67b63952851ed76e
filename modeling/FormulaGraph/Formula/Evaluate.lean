import FormulaGraph.Formula.Parse
import FormulaGraph.Operation.Apply

/-! Formulas without a scope. Nothing is kept of a calculation but its result. -/

namespace FormulaGraph

def applyAt (operation : Operation) (operands : List Value) (offset : Nat) : Checked Value :=
  match operation.apply operands with
  | .ok value => .ok value
  | .error fault => .error (fault.at offset)

def valueBuilder : Builder Id Value Unit where
  literal value := value
  calculate := applyAt
  kind value := .ok value.kind
  resolve _ _ := none
  discard _ := ()

/-- The value of a formula of literals, named constants and built-in functions. -/
def evaluate (formula : String) : Checked Value := valueBuilder.parse () formula

end FormulaGraph
