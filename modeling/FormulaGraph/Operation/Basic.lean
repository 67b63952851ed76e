import FormulaGraph.Value.Basic

/-! What a calculation can do with its operands, and the names under which formulas ask for it. -/

namespace FormulaGraph

inductive BinaryOp where
  | add
  | sub
  | mul
  | div
  | eq
  | ne
  | lt
  | gt
  | le
  | ge
  | and
  | or
deriving DecidableEq, Repr

namespace BinaryOp

def all : List BinaryOp := [add, sub, mul, div, eq, ne, lt, gt, le, ge, and, or]

def symbol : BinaryOp → String
  | add => "+"
  | sub => "-"
  | mul => "*"
  | div => "/"
  | eq => "=="
  | ne => "!="
  | lt => "<"
  | gt => ">"
  | le => "<="
  | ge => ">="
  | and => "&&"
  | or => "||"

def ofSymbol? (symbol : String) : Option BinaryOp := all.find? (·.symbol == symbol)

/-- Binding strength. -/
def level : BinaryOp → Nat
  | or => 1
  | and => 2
  | eq | ne => 3
  | lt | gt | le | ge => 4
  | add | sub => 5
  | mul | div => 6

end BinaryOp

inductive UnaryOp where
  | neg
  | not
deriving DecidableEq, Repr

def UnaryOp.all : List UnaryOp := [neg, not]

def UnaryOp.symbol : UnaryOp → String
  | neg => "-"
  | not => "!"

def UnaryOp.ofSymbol? (symbol : String) : Option UnaryOp := all.find? (·.symbol == symbol)

/-- Something to read off a value. -/
inductive Field where
  | inUnit (unit : LengthUnit)
  | exponent
  | x
  | y
  | length
  | angle
  | degrees
  | radians
  | sin
  | cos
  | tan
  | red
  | green
  | blue
  | alpha
deriving DecidableEq, Repr

namespace Field

def name : Field → String
  | inUnit unit => unit.symbol
  | exponent => "Exponent"
  | x => "X"
  | y => "Y"
  | length => "Length"
  | angle => "Angle"
  | degrees => "deg"
  | radians => "rad"
  | sin => "Sin"
  | cos => "Cos"
  | tan => "Tan"
  | red => "Red"
  | green => "Green"
  | blue => "Blue"
  | alpha => "Alpha"

end Field

def LengthUnit.label : LengthUnit → String
  | millimetre => "Millimetre"
  | centimetre => "Centimetre"
  | metre => "Metre"
  | kilometre => "Kilometre"
  | inch => "Inch"
  | point => "Point"

/-- The field as messages about operand counts call it. -/
def Field.label : Field → String
  | inUnit unit => "InUnit(" ++ unit.label ++ ")"
  | degrees => "Degrees"
  | radians => "Radians"
  | field => field.name

/-- The fields of each kind, in the order they are listed. -/
def Kind.fields : Kind → List Field
  | quantity => LengthUnit.all.map .inUnit ++ [.exponent]
  | point | vector => [.x, .y, .length, .angle]
  | angle => [.degrees, .radians, .sin, .cos, .tan]
  | color => [.red, .green, .blue, .alpha]
  | text => [.length]
  | scalar | bool => []

def Kind.field? (kind : Kind) (name : String) : Option Field :=
  kind.fields.find? (·.name == name)

/-- Something to ask of a value, with arguments. -/
inductive Method where
  | abs
  | round
  | rotate
  | distance
  | normalise
  | dot
  | brighter
  | darker
  | withAlpha
  | toUpper
  | toLower
deriving DecidableEq, Repr

def Method.name : Method → String
  | abs => "abs"
  | round => "round"
  | rotate => "rotate"
  | distance => "distance"
  | normalise => "normalise"
  | dot => "dot"
  | brighter => "brighter"
  | darker => "darker"
  | withAlpha => "withAlpha"
  | toUpper => "toUpper"
  | toLower => "toLower"

/-- Arguments besides the receiver. -/
def Method.arity : Method → Nat
  | rotate | distance | dot | withAlpha => 1
  | _ => 0

def Kind.methods : Kind → List Method
  | scalar => [.abs, .round]
  | quantity => [.abs]
  | point => [.rotate, .distance, .normalise]
  | vector => [.normalise, .rotate, .dot]
  | color => [.brighter, .darker, .withAlpha]
  | text => [.toUpper, .toLower]
  | angle | bool => []

def Kind.method? (kind : Kind) (name : String) : Option Method :=
  kind.methods.find? (·.name == name)

/-- A function that formulas can call in any scope. -/
inductive Builtin where
  | dimension2
  | vector
  | color
  | sqrt
  | abs
  | min
  | max
  | choose
deriving DecidableEq, Repr

namespace Builtin

def all : List Builtin := [dimension2, vector, color, sqrt, abs, min, max, choose]

def name : Builtin → String
  | dimension2 => "Dimension2"
  | vector => "Vector"
  | color => "Color"
  | sqrt => "sqrt"
  | abs => "abs"
  | min => "min"
  | max => "max"
  | choose => "if"

def ofName? (name : String) : Option Builtin := all.find? (·.name == name)

theorem ofName?_name (f : Builtin) : ofName? f.name = some f := by
  cases f <;> rfl

def fewest : Builtin → Nat
  | dimension2 | vector | min | max => 2
  | color | choose => 3
  | sqrt | abs => 1

def most : Builtin → Nat
  | color => 4
  | f => f.fewest

def takes (f : Builtin) (count : Nat) : Bool := f.fewest ≤ count && count ≤ f.most

end Builtin

/-- A unit behind a number. -/
inductive Suffix where
  | length (unit : LengthUnit)
  | degrees
  | radians
deriving DecidableEq, Repr

def Suffix.symbol : Suffix → String
  | length unit => unit.symbol
  | degrees => "deg"
  | radians => "rad"

def Suffix.ofSymbol? (symbol : String) : Option Suffix :=
  if symbol = "deg" then some degrees
  else if symbol = "rad" then some radians
  else (LengthUnit.ofSymbol? symbol).map length

/-- For fields and methods, the first operand is the receiver. -/
inductive Operation where
  | binary (op : BinaryOp)
  | unary (op : UnaryOp)
  | field (field : Field)
  | method (method : Method)
  | builtin (function : Builtin)
  | convert (suffix : Suffix)
deriving DecidableEq, Repr

def Operation.label : Operation → String
  | binary op => op.symbol
  | unary op => "unary " ++ op.symbol
  | field f => "member " ++ f.label
  | method m => m.name ++ "()"
  | builtin f => f.name ++ "()"
  | convert s => "suffix " ++ s.symbol

/-- Names that stand for a value in any scope that does not hold them itself. -/
def namedConstant? (name : String) : Option Value :=
  if name = "PI" then some (.scalar circleRatio)
  else if name = "Black" then some (.color ⟨0, 0, 0, 1⟩)
  else if name = "White" then some (.color (.solid 1 1 1))
  else if name = "Transparent" then some (.color (.clamped 0 0 0 0))
  else none

end FormulaGraph
