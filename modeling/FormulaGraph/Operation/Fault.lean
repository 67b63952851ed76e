import FormulaGraph.Operation.Basic

/-! Why an operation has no result, and what the message says. -/

namespace FormulaGraph

inductive ValueFault where
  | binaryKinds (op : BinaryOp) (left right : Kind)
  | exponents (op : BinaryOp) (left right : Int32)
  | unaryKind (op : UnaryOp) (kind : Kind)
  | divisionByZero
  | result (fault : NumericFault)
  | operandCount (operation : Operation) (count : Nat)
  | expected (wanted got : Kind)
  | noDirection
  | noMember (name : String)
  | methodArity (method : Method) (count : Nat)
  | builtinArity (function : Builtin) (count : Nat)
  | pointDimensions
  | axisDimensions
  | axisKinds (x y : Kind)
  | negativeRoot
  | quantityRoot (q : Quantity)
  | builtinKinds (function : Builtin) (kinds : List Kind)
  | suffixKind (suffix : Suffix) (kind : Kind)
deriving Repr

def plural (count : Nat) : String := if count = 1 then "" else "s"

def Method.arityMessage (method : Method) (count : Nat) : String :=
  method.name ++ " expects " ++ toString method.arity ++ " argument" ++ plural method.arity ++
    ", got " ++ toString count

def Builtin.arityMessage (function : Builtin) (count : Nat) : String :=
  let wanted :=
    if function.fewest = function.most then toString function.fewest
    else toString function.fewest ++ " to " ++ toString function.most
  function.name ++ " expects " ++ wanted ++ " argument" ++ plural function.most ++
    ", got " ++ toString count

def ValueFault.message : ValueFault → String
  | binaryKinds op left right =>
    "cannot apply " ++ op.symbol ++ " to " ++ left.name ++ " and " ++ right.name
  | exponents op left right =>
    "cannot apply " ++ op.symbol ++ " to Quantity and Quantity: exponents " ++
      toString left.toInt ++ " and " ++ toString right.toInt ++ " differ"
  | unaryKind op kind => "cannot apply " ++ op.symbol ++ " to " ++ kind.name
  | divisionByZero => "division by zero"
  | result fault => "invalid numeric result: " ++ fault.message
  | operandCount operation count =>
    operation.label ++ " received " ++ toString count ++ " operands"
  | expected wanted got => "expected " ++ wanted.name ++ ", got " ++ got.name
  | noDirection => "cannot normalise a zero-length vector"
  | noMember name => name ++ " not found"
  | methodArity method count => method.arityMessage count
  | builtinArity function count => function.arityMessage count
  | pointDimensions => "cannot measure between points of different dimension"
  | axisDimensions => "Dimension2 expects quantities of the same dimension"
  | axisKinds x y => "Dimension2 expects Quantity arguments, got " ++ x.name ++ " and " ++ y.name
  | negativeRoot => "sqrt of a negative number"
  | quantityRoot q =>
    "sqrt needs a non-negative quantity with an even exponent, got " ++ q.text
  | builtinKinds function kinds =>
    "cannot apply " ++ function.name ++ " to " ++ ", ".intercalate (kinds.map Kind.name)
  | suffixKind suffix kind =>
    "unit suffix " ++ suffix.symbol ++ " needs a number, got " ++ kind.name

abbrev Applied := Except ValueFault Value

/-- The numbers a value is made of; the components of a color are bounded by themselves. -/
def Value.numbers : Value → List Float
  | scalar x => [x]
  | quantity q => [q.magnitude]
  | point x y => [x.magnitude, y.magnitude]
  | vector v => [v.x, v.y]
  | angle radians => [radians]
  | color _ | bool _ | text _ => []

/-- Arithmetic that leaves the finite numbers has no result. -/
def checkFinite (value : Value) : Applied :=
  match value.numbers.findSome? numericFault? with
  | some fault => .error (.result fault)
  | none => .ok value

end FormulaGraph
