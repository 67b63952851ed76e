import FormulaGraph.Number.Shortest

/-! Doubles as formulas use them: what counts as a number, when two are equal, and how one is written. -/

namespace FormulaGraph

inductive NumericFault where
  | notANumber
  | infinite
deriving DecidableEq, Repr

def NumericFault.message : NumericFault → String
  | notANumber => "value is NaN"
  | infinite => "value is infinite"

def numericFault? (x : Float) : Option NumericFault :=
  if x.isNaN then some .notANumber
  else if x.isInf then some .infinite
  else none

/-- The larger of two, or the one that is a number. -/
def larger (x y : Float) : Float :=
  if x.isNaN then y
  else if y.isNaN then x
  else if x < y then y else x

/-- Equality up to a relative tolerance of one in a thousand million. -/
def approxEq (x y : Float) : Bool :=
  (x - y).abs ≤ 1e-9 * larger (larger x.abs y.abs) 1

def signed (negative : Bool) (magnitude : List Char) : List Char :=
  if negative then '-' :: magnitude else magnitude

/-- The shortest digits that read back, never with an exponent. -/
def numberText (x : Float) : String :=
  if x.isNaN then "NaN"
  else String.ofList <| signed (isNegative x) <|
    if x.isInf then "inf".toList
    else if x == 0 then ['0']
    else (shortest x.abs).text

/-- A number that is a billionth's multiple up to noise is taken for it. -/
def withoutNoise (x : Float) : Float :=
  let rounded := roundAway (x * 1e9) / 1e9
  if (rounded - x).abs < 1e-12 * larger x.abs 1 then rounded else x

/-- The spelling of a number in a formula; zero has no sign. -/
def formatNumber (x : Float) : String :=
  let x := withoutNoise x
  if x == 0 then "0" else numberText x

/-- Squares repeatedly; the product starts from `product`. -/
def powerFrom (product x : Float) (n : Nat) : Float :=
  let product := if n % 2 = 1 then product * x else product
  if n / 2 = 0 then product else powerFrom product (x * x) (n / 2)
termination_by n

def intPower (x : Float) (n : Int32) : Float :=
  let power := powerFrom 1 x n.toInt.natAbs
  if n < 0 then 1 / power else power

/-- Moves `x` to the nearest end of the range if it is outside. What is not a number stays. -/
def clamp (x low high : Float) : Float :=
  if x < low then low else if high < x then high else x

def circleRatio : Float := 3.141592653589793

def toRadians (degrees : Float) : Float := degrees * (circleRatio / 180)

def toDegrees (radians : Float) : Float := radians * 57.29577951308232

end FormulaGraph
