import FormulaGraph.Formula.Builder

/-! Operands that wait for an operator, and operators and brackets that wait for their last operand.
Both stacks have their top first. -/

namespace FormulaGraph

structure Entry (α σ : Type) where
  operand : Found α σ
  offset : Nat
  /-- The name it was found under. -/
  name : String := ""
deriving Repr

inductive Callee (α : Type) where
  | builtin (function : Builtin)
  | method (method : Method) (receiver : α)
deriving Repr

inductive Pending (α : Type) where
  | binary (op : BinaryOp)
  | unary (op : UnaryOp)
  | paren
  /-- A call that was opened on `base` operands and has `closed` arguments ended by a comma. -/
  | call (callee : Callee α) (base closed : Nat)
deriving Repr

namespace Pending

variable {α : Type}

/-- Brackets yield to no operator that comes after them. -/
def level : Pending α → Nat
  | binary op => op.level
  | unary _ => 7
  | paren | call .. => 0

def symbol? : Pending α → Option String
  | binary op => some op.symbol
  | unary op => some op.symbol
  | paren | call .. => none

def isBracket : Pending α → Bool
  | paren | call .. => true
  | binary _ | unary _ => false

def receiver? : Pending α → Option α
  | call (.method _ receiver) .. => some receiver
  | _ => none

end Pending

abbrev Operands (α σ : Type) := List (Entry α σ)

abbrev Operators (α : Type) := List (Pending α × Nat)

structure Stacks (α σ : Type) where
  operands : Operands α σ := []
  operators : Operators α := []
  /-- Whether an operand or a prefix operator has to come next. -/
  expectOperand : Bool := true

/-- A failure, and the operands it leaves over in the order they are given up. -/
structure Failure (α : Type) where
  error : FormulaError
  loose : List α

variable {α σ : Type}

def held (operands : Operands α σ) (operators : Operators α) : List α :=
  operands.reverse.filterMap (·.operand.value?) ++ operators.reverse.filterMap (·.1.receiver?)

def Stacks.held (s : Stacks α σ) : List α := FormulaGraph.held s.operands s.operators

/-- Fails with `loose` operands on top of those that the stacks hold. -/
def failing {m : Type → Type} [Monad m] {β : Type} (operands : Operands α σ)
    (operators : Operators α) (error : FormulaError) (loose : List α) : ExceptT (Failure α) m β :=
  throw ⟨error, loose ++ FormulaGraph.held operands operators⟩

def ParseFault.at (fault : ParseFault) (offset : Nat) : FormulaError :=
  { cause := .parse fault, offset }

def ValueFault.at (fault : ValueFault) (offset : Nat) : FormulaError :=
  { cause := .value fault, offset }

def Stacks.fail {m : Type → Type} [Monad m] {β : Type} (s : Stacks α σ) (fault : ParseFault)
    (offset : Nat) : ExceptT (Failure α) m β :=
  failing s.operands s.operators (fault.at offset) []

/-- Blames the operator that still waits for an operand, if there is one. -/
def Stacks.failMissing {m : Type → Type} [Monad m] {β : Type} (s : Stacks α σ)
    (otherwise : ParseFault) (offset : Nat) : ExceptT (Failure α) m β :=
  match s.operators with
  | (pending, place) :: _ =>
    match pending.symbol? with
    | some symbol => s.fail (.missingOperand symbol) place
    | none => s.fail otherwise offset
  | [] => s.fail otherwise offset

/-- Argument `slot` of a call opened on `base` operands has to hold exactly one. -/
def slotFault? (operands : Operands α σ) (base slot offset : Nat) : Option FormulaError :=
  match operands.reverse[base + slot + 1]? with
  | some extra => some (ParseFault.missingComma.at extra.offset)
  | none =>
    if operands.length < base + slot + 1 then some (ParseFault.missingArgument.at offset) else none

end FormulaGraph
