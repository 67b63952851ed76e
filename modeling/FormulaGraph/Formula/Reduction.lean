import FormulaGraph.Formula.Stacks

/-! Pending operators and calls turn their operands into one. Every calculation has its value worked out
as soon as it is built, so that operands that do not go together fail where they meet. -/

namespace FormulaGraph

variable {m : Type → Type} [Monad m] {α σ : Type}

abbrev Parsing (m : Type → Type) (α β : Type) := ExceptT (Failure α) m β

/-- Builds a calculation; `operands` and `operators` are what is left when that fails. -/
def Builder.calculateOn (b : Builder m α σ) (operands : Operands α σ) (operators : Operators α)
    (operation : Operation) (arguments : List α) (offset : Nat) : Parsing m α (Operands α σ) := do
  match ← b.calculate operation arguments offset with
  | .ok a => return ⟨.value a, offset, ""⟩ :: operands
  | .error e => failing operands operators e []

/-- The value on top; `loose` operands are given up when there is none. -/
def popValue (operands : Operands α σ) (operators : Operators α) (symbol : String) (offset : Nat)
    (loose : List α) : Parsing m α (α × Operands α σ) :=
  match operands with
  | [] => failing operands operators ((ParseFault.missingOperand symbol).at offset) loose
  | entry :: operands =>
    match entry.operand with
    | .value a => return (a, operands)
    | _ => failing operands operators ((ParseFault.notAValue entry.name).at entry.offset) loose

/-- Applies an operator that has been taken off the stack. -/
def Builder.reduce (b : Builder m α σ) (pending : Pending α) (offset : Nat)
    (operands : Operands α σ) (operators : Operators α) : Parsing m α (Operands α σ) :=
  match pending with
  | .binary op => do
    let (right, operands) ← popValue operands operators op.symbol offset []
    let (left, operands) ← popValue operands operators op.symbol offset [right]
    b.calculateOn operands operators (.binary op) [left, right] offset
  | .unary op => do
    let (a, operands) ← popValue operands operators op.symbol offset []
    b.calculateOn operands operators (.unary op) [a] offset
  | .paren | .call .. =>
    failing operands operators (ParseFault.unbalancedOpening.at offset) pending.receiver?.toList

/-- Applies pending operators from the top as long as they pass `test`. -/
def Builder.reduceWhile (b : Builder m α σ) (test : Pending α → Bool) (operands : Operands α σ) :
    Operators α → Parsing m α (Operands α σ × Operators α)
  | [] => return (operands, [])
  | (pending, offset) :: operators =>
    if test pending then do
      b.reduceWhile test (← b.reduce pending offset operands operators) operators
    else return (operands, (pending, offset) :: operators)

/-- The values among `entries`. At the first entry that is none, the ones after it are given up
before the ones already taken. -/
def takeValues : List (Entry α σ) → List α → Except (FormulaError × List α) (List α)
  | [], taken => .ok taken.reverse
  | entry :: entries, taken =>
    match entry.operand with
    | .value a => takeValues entries (a :: taken)
    | _ =>
      .error ((ParseFault.notAValue entry.name).at entry.offset,
        entries.filterMap (·.operand.value?) ++ taken.reverse)

/-- Makes a closed call into a calculation. -/
def Builder.finishCall (b : Builder m α σ) (callee : Callee α) (base offset : Nat)
    (operands : Operands α σ) (operators : Operators α) : Parsing m α (Operands α σ) :=
  let count := operands.length - base
  let below := operands.drop count
  let receiver := (Pending.call callee base 0).receiver?.toList
  match takeValues (operands.take count).reverse [] with
  | .error (e, loose) => failing below operators e (loose ++ receiver)
  | .ok arguments =>
    match callee with
    | .builtin f =>
      if f.takes arguments.length then
        b.calculateOn below operators (.builtin f) arguments offset
      else
        failing below operators ((ParseFault.builtinArity f arguments.length).at offset) arguments
    | .method method receiver =>
      if arguments.length = method.arity then
        b.calculateOn below operators (.method method) (receiver :: arguments) offset
      else
        failing below operators ((ParseFault.methodArity method arguments.length).at offset)
          (receiver :: arguments)

/-- Closes the innermost bracket; `empty` says that nothing stands before the closing mark. -/
def Builder.closeBracket (b : Builder m α σ) (empty : Bool) (offset : Nat)
    (operands : Operands α σ) : Operators α → Parsing m α (Operands α σ × Operators α)
  | [] => failing operands [] (ParseFault.unbalancedClosing.at offset) []
  | (.paren, place) :: operators =>
    if empty then failing operands operators (ParseFault.emptyParentheses.at place) []
    else return (operands, operators)
  | (.call callee base closed, place) :: operators => do
    if !empty then
      if let some e := slotFault? operands base closed offset then
        failing operands operators e (Pending.call callee base closed).receiver?.toList
    return (← b.finishCall callee base place operands operators, operators)
  | (pending, place) :: operators => do
    b.closeBracket empty offset (← b.reduce pending place operands operators) operators

end FormulaGraph
