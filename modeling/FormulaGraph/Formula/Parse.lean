import FormulaGraph.Formula.Reduction
import FormulaGraph.Formula.Tokens

/-! A formula is read token by token, and what it names and calculates is built along the way. -/

namespace FormulaGraph

variable {m : Type → Type} [Monad m] {α σ : Type}

def Stacks.push (s : Stacks α σ) (operand : Found α σ) (offset : Nat) (name : String := "") :
    Stacks α σ :=
  { s with operands := ⟨operand, offset, name⟩ :: s.operands, expectOperand := false }

/-- Tokens after the current one that went with it, and the stacks after both. -/
abbrev Advance (α σ : Type) := Nat × Stacks α σ

def suffixIn? : List Token → Option Suffix
  | ⟨_, .name name⟩ :: _ => Suffix.ofSymbol? name
  | _ => none

def opensCall : List Token → Bool
  | ⟨_, .symbol .opening⟩ :: _ => true
  | _ => false

def Builder.takeNumber (b : Builder m α σ) (s : Stacks α σ) (offset : Nat) (digits : String)
    (after : List Token) : Parsing m α (Advance α σ) := do
  let some x := readNumber? digits.toList | s.fail (.invalidNumber digits) offset
  let literal ← b.literal (.scalar x)
  match suffixIn? after with
  | none => return (0, s.push (.value literal) offset)
  | some suffix =>
    let operands ← b.calculateOn s.operands s.operators (.convert suffix) [literal] offset
    return (1, { s with operands, expectOperand := false })

/-- The scope comes before the named constants, and only `true` and `false` come before the scope. -/
def Builder.takeName (b : Builder m α σ) (scope : σ) (s : Stacks α σ) (offset : Nat)
    (name : String) : Parsing m α (Stacks α σ) := do
  if name = "true" then return s.push (.value (← b.literal (.bool true))) offset name
  if name = "false" then return s.push (.value (← b.literal (.bool false))) offset name
  match ← b.resolve scope name with
  | some found => return s.push found offset name
  | none =>
    match namedConstant? name with
    | some value => return s.push (.value (← b.literal value)) offset name
    | none => s.fail (.unknownIdentifier name) offset

def Stacks.openCall (s : Stacks α σ) (callee : Callee α) (offset : Nat) : Stacks α σ :=
  { s with
    operators := (.call callee s.operands.length 0, offset) :: s.operators
    expectOperand := true }

def Builder.takeComma (b : Builder m α σ) (s : Stacks α σ) (offset : Nat) :
    Parsing m α (Stacks α σ) := do
  if s.expectOperand then s.failMissing .missingArgumentBefore offset
  let (operands, operators) ← b.reduceWhile (!·.isBracket) s.operands s.operators
  match operators with
  | (.call callee base closed, place) :: below =>
    let operators := (.call callee base (closed + 1), place) :: below
    match slotFault? operands base closed offset with
    | some e => failing operands operators e []
    | none => return ⟨operands, operators, true⟩
  | _ => failing operands operators (ParseFault.commaOutsideCall.at offset) []

def Builder.takeClosing (b : Builder m α σ) (s : Stacks α σ) (offset : Nat) :
    Parsing m α (Stacks α σ) := do
  if s.expectOperand then
    match s.operators with
    | (.call _ _ closed, _) :: _ => if 0 < closed then s.fail .missingArgumentAfter offset
    | (.paren, _) :: _ => pure ()
    | _ => s.failMissing .unbalancedClosing offset
  let (operands, operators) ← b.closeBracket s.expectOperand offset s.operands s.operators
  return ⟨operands, operators, false⟩

/-- A point takes the name behind it as a member of the operand before it. -/
def Builder.takeMember (b : Builder m α σ) (s : Stacks α σ) (dot : Nat) (after : List Token) :
    Parsing m α (Advance α σ) := do
  let ⟨offset, .name name⟩ :: after := after | s.fail .memberName dot
  if s.expectOperand then s.fail (.unexpected .dot) dot
  let receiver :: operands := s.operands | s.fail (.unexpected .dot) dot
  let s := { s with operands }
  let notFound := (ValueFault.noMember name).at offset
  match receiver.operand with
  | .value a =>
    match ← b.kind a with
    | .error e => failing s.operands s.operators e [a]
    | .ok kind =>
      if opensCall after then
        let some method := kind.method? name | failing s.operands s.operators notFound [a]
        return (2, s.openCall (.method method a) offset)
      else
        let some field := kind.field? name | failing s.operands s.operators notFound [a]
        let operands ← b.calculateOn s.operands s.operators (.field field) [a] offset
        return (1, { s with operands })
  | .scope inner =>
    if opensCall after then failing s.operands s.operators notFound []
    match ← b.resolve inner name with
    | some found => return (1, { s with operands := ⟨found, offset, name⟩ :: s.operands })
    | none => failing s.operands s.operators notFound []
  | .list => failing s.operands s.operators notFound []

def Stacks.pushOperator (s : Stacks α σ) (pending : Pending α) (offset : Nat) : Stacks α σ :=
  { s with operators := (pending, offset) :: s.operators, expectOperand := true }

def Builder.takeBinary (b : Builder m α σ) (s : Stacks α σ) (offset : Nat) (op : BinaryOp) :
    Parsing m α (Stacks α σ) := do
  if s.expectOperand then
    if op = .sub then return s.pushOperator (.unary .neg) offset
    s.fail (.missingOperand op.symbol) offset
  let (operands, operators) ← b.reduceWhile (op.level ≤ ·.level) s.operands s.operators
  return ⟨operands, (.binary op, offset) :: operators, true⟩

def Builder.takeSymbol (b : Builder m α σ) (s : Stacks α σ) (offset : Nat) (symbol : Symbol)
    (after : List Token) : Parsing m α (Advance α σ) := do
  match symbol with
  | .opening => return (0, s.pushOperator .paren offset)
  | .closing => return (0, ← b.takeClosing s offset)
  | .comma => return (0, ← b.takeComma s offset)
  | .dot => b.takeMember s offset after
  | .not =>
    if s.expectOperand then return (0, s.pushOperator (.unary .not) offset)
    else s.fail (.unexpected .not) offset
  | .binary op => return (0, ← b.takeBinary s offset op)

def Builder.takeToken (b : Builder m α σ) (scope : σ) (s : Stacks α σ) (token : Token)
    (after : List Token) : Parsing m α (Advance α σ) := do
  match token.lexeme with
  | .number digits => b.takeNumber s token.offset digits after
  | .text contents => return (0, s.push (.value (← b.literal (.text contents))) token.offset)
  | .name name =>
    if opensCall after then
      match Builtin.ofName? name with
      | some f => return (1, s.openCall (.builtin f) token.offset)
      | none => s.fail (.unknownFunction name) token.offset
    else return (0, ← b.takeName scope s token.offset name)
  | .symbol symbol => b.takeSymbol s token.offset symbol after

def Builder.reduceAll (b : Builder m α σ) (s : Stacks α σ) : Parsing m α (Operands α σ) := do
  let (operands, operators) ← b.reduceWhile (!·.isBracket) s.operands s.operators
  match operators with
  | [] => return operands
  | (_, offset) :: _ => failing operands operators (ParseFault.unbalancedOpening.at offset) []

/-- After the last token, everything has to come down to one value. -/
def Builder.finish (b : Builder m α σ) (s : Stacks α σ) : Parsing m α α := do
  if s.expectOperand then
    if let (pending, place) :: _ := s.operators then
      if let some symbol := pending.symbol? then s.fail (.missingOperand symbol) place
  match (← b.reduceAll s).reverse with
  | [] => throw ⟨ParseFault.noValue.at 0, []⟩
  | [entry] =>
    match entry.operand with
    | .value a => return a
    | _ => throw ⟨(ParseFault.notAValue entry.name).at entry.offset, []⟩
  | first :: second :: entries =>
    failing (first :: second :: entries).reverse [] (ParseFault.severalValues.at second.offset) []

def Builder.takeAll (b : Builder m α σ) (scope : σ) (s : Stacks α σ) :
    List Token → Parsing m α α
  | [] => b.finish s
  | token :: after => do
    let (count, s) ← b.takeToken scope s token after
    b.takeAll scope s (after.drop count)
termination_by tokens => tokens.length

/-- Builds a formula in a scope. A failure points into the formula, and leaves nothing behind. -/
def Builder.parse (b : Builder m α σ) (scope : σ) (formula : String) : m (Checked α) := do
  match tokenize formula with
  | .error e => return .error (e.attach formula)
  | .ok tokens =>
    match ← (b.takeAll scope {} tokens).run with
    | .ok a => return .ok a
    | .error failure =>
      b.discard failure.loose
      return .error (failure.error.attach formula)

end FormulaGraph
