import FormulaGraph.Formula.Error

/-! What formulas are built into. The order of building is fixed elsewhere; a builder says what an
operand is and what it takes to calculate with it. -/

namespace FormulaGraph

/-- What a name stands for. A list is only good for reaching its items by number. -/
inductive Found (α σ : Type) where
  | value (a : α)
  | scope (s : σ)
  | list
deriving Repr

def Found.value? {α σ : Type} : Found α σ → Option α
  | value a => some a
  | _ => none

structure Builder (m : Type → Type) (α σ : Type) where
  literal : Value → m α
  /-- Takes the operands over. A calculation without a value is given up at once. -/
  calculate : Operation → List α → Nat → m (Checked α)
  kind : α → m (Checked Kind)
  resolve : σ → String → m (Option (Found α σ))
  /-- Gives up operands that no calculation took over. -/
  discard : List α → m Unit

end FormulaGraph
