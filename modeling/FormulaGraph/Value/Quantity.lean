import FormulaGraph.Number.Basic

/-! Lengths, areas and other whole powers of a length: a magnitude in a unit raised to an exponent.
An exponent of zero makes a plain ratio. Exponents have 32 bits and wrap. -/

namespace FormulaGraph

inductive LengthUnit where
  | millimetre
  | centimetre
  | metre
  | kilometre
  | inch
  | point
deriving DecidableEq, Repr

def LengthUnit.all : List LengthUnit := [millimetre, centimetre, metre, kilometre, inch, point]

def LengthUnit.symbol : LengthUnit → String
  | millimetre => "mm"
  | centimetre => "cm"
  | metre => "m"
  | kilometre => "km"
  | inch => "in"
  | point => "pt"

def LengthUnit.ofSymbol? (symbol : String) : Option LengthUnit :=
  LengthUnit.all.find? (·.symbol == symbol)

theorem LengthUnit.ofSymbol?_symbol (u : LengthUnit) : ofSymbol? u.symbol = some u := by
  cases u <;> rfl

def LengthUnit.millimetres : LengthUnit → Float
  | millimetre => 1
  | centimetre => 10
  | metre => 1000
  | kilometre => 1000000
  | inch => 25.4
  | point => 25.4 / 72

structure Quantity where
  magnitude : Float
  unit : LengthUnit
  exponent : Int32
deriving BEq, Repr

namespace Quantity

def length (magnitude : Float) (unit : LengthUnit) : Quantity := ⟨magnitude, unit, 1⟩

def isRatio (q : Quantity) : Bool := q.exponent == 0

def sameDimension (a b : Quantity) : Bool := a.exponent == b.exponent

def inUnit (q : Quantity) (unit : LengthUnit) : Float :=
  q.magnitude * intPower (q.unit.millimetres / unit.millimetres) q.exponent

def convert (q : Quantity) (unit : LengthUnit) : Quantity :=
  { q with magnitude := q.inUnit unit, unit }

def neg (q : Quantity) : Quantity := { q with magnitude := -q.magnitude }

def scale (q : Quantity) (factor : Float) : Quantity := { q with magnitude := q.magnitude * factor }

def divide (q : Quantity) (divisor : Float) : Quantity :=
  { q with magnitude := q.magnitude / divisor }

def abs (q : Quantity) : Quantity := { q with magnitude := q.magnitude.abs }

/-- The sum in the unit of `a`; quantities of different dimension have none. -/
def add? (a b : Quantity) : Option Quantity :=
  if a.sameDimension b then some { a with magnitude := a.magnitude + b.inUnit a.unit } else none

def sub? (a b : Quantity) : Option Quantity := a.add? b.neg

def product (a b : Quantity) : Quantity :=
  { a with magnitude := a.magnitude * b.inUnit a.unit, exponent := a.exponent + b.exponent }

/-- Nothing is divided by zero. -/
def quotient? (a b : Quantity) : Option Quantity :=
  let divisor := b.inUnit a.unit
  if divisor == 0 then none
  else some { a with magnitude := a.magnitude / divisor, exponent := a.exponent - b.exponent }

/-- Negative magnitudes and odd exponents have no root. -/
def root? (q : Quantity) : Option Quantity :=
  if q.magnitude < 0 || q.exponent % 2 != 0 then none
  else some { q with magnitude := q.magnitude.sqrt, exponent := q.exponent / 2 }

def approxEq (a b : Quantity) : Bool :=
  a.sameDimension b && FormulaGraph.approxEq a.magnitude (b.inUnit a.unit)

end Quantity

def order? (x y : Float) : Option Ordering :=
  if x < y then some .lt else if y < x then some .gt else if x == y then some .eq else none

namespace Quantity

def order? (a b : Quantity) : Option Ordering :=
  if a.sameDimension b then FormulaGraph.order? a.magnitude (b.inUnit a.unit) else none

def repeated (times : Nat) (text : String) : String := String.join (List.replicate times text)

/-- Exponents other than one are spelled as products or quotients of unit literals. -/
def formula (q : Quantity) : String :=
  let symbol := q.unit.symbol
  let magnitude := formatNumber q.magnitude
  match q.exponent.toInt with
  | 0 => magnitude ++ symbol ++ " / 1" ++ symbol
  | .ofNat n => magnitude ++ symbol ++ repeated (n - 1) (" * 1" ++ symbol)
  | .negSucc n => magnitude ++ repeated (n + 1) (" / 1" ++ symbol)

def text (q : Quantity) : String :=
  let magnitude := formatNumber q.magnitude ++ q.unit.symbol
  if q.exponent == 1 then magnitude else magnitude ++ "^" ++ toString q.exponent.toInt

end Quantity

end FormulaGraph
