import FormulaGraph.Value.Quantity
import FormulaGraph.Value.Plane
import FormulaGraph.Value.Color

/-! The values of formulas, how they compare and how they are written. -/

namespace FormulaGraph

inductive Kind where
  | scalar
  | quantity
  | point
  | vector
  | angle
  | color
  | bool
  | text
deriving DecidableEq, Repr

def Kind.all : List Kind := [scalar, quantity, point, vector, angle, color, bool, text]

def Kind.name : Kind → String
  | scalar => "Scalar"
  | quantity => "Quantity"
  | point => "Point"
  | vector => "Vector"
  | angle => "Angle"
  | color => "Color"
  | bool => "Bool"
  | text => "Text"

inductive Value where
  | scalar (x : Float)
  | quantity (q : Quantity)
  /-- A position or a size, one quantity for each axis. -/
  | point (x y : Quantity)
  | vector (v : Planar)
  | angle (radians : Float)
  | color (c : Color)
  | bool (b : Bool)
  | text (s : String)
deriving BEq, Repr

namespace Value

def kind : Value → Kind
  | scalar _ => .scalar
  | quantity _ => .quantity
  | point .. => .point
  | vector _ => .vector
  | angle _ => .angle
  | color _ => .color
  | bool _ => .bool
  | text _ => .text

/-- A ratio counts as a scalar. -/
def asScalar? : Value → Option Float
  | scalar x => some x
  | quantity q => if q.isRatio then some q.magnitude else none
  | _ => none

def asQuantity? : Value → Option Quantity
  | quantity q => some q
  | _ => none

def asBool? : Value → Option Bool
  | bool b => some b
  | _ => none

def asAngle? : Value → Option Float
  | angle radians => some radians
  | _ => none

def asText? : Value → Option String
  | text s => some s
  | _ => none

/-- Equality up to tolerance and unit. Values of kinds or dimensions that do not compare have none. -/
def approxEq? : Value → Value → Option Bool
  | quantity a, quantity b => if a.sameDimension b then some (a.approxEq b) else none
  | point x y, point x' y' =>
    if x.sameDimension x' && y.sameDimension y' then some (x.approxEq x' && y.approxEq y')
    else none
  | vector a, vector b => some (approxEq a.x b.x && approxEq a.y b.y)
  | angle a, angle b => some (approxEq a b)
  | color a, color b => some (a.approxEq b)
  | bool a, bool b => some (a == b)
  | text a, text b => some (a == b)
  | a, b => do return approxEq (← a.asScalar?) (← b.asScalar?)

def scalarOrder? (a b : Value) : Option Ordering := do order? (← a.asScalar?) (← b.asScalar?)

def order? : Value → Value → Option Ordering
  | quantity a, quantity b =>
    if a.isRatio && b.isRatio then scalarOrder? (quantity a) (quantity b) else a.order? b
  | angle a, angle b => FormulaGraph.order? a b
  | text a, text b => some (compare a b)
  | a, b => scalarOrder? a b

def quotedChar : Char → List Char
  | '"' => ['\\', '"']
  | '\\' => ['\\', '\\']
  | '\n' => ['\\', 'n']
  | '\t' => ['\\', 't']
  | c => [c]

/-- The literal that reads back as `s`. -/
def quoted (s : String) : String :=
  String.ofList ('"' :: s.toList.flatMap quotedChar ++ ['"'])

/-- A formula for the value. -/
def formula : Value → String
  | scalar x => formatNumber x
  | quantity q => q.formula
  | point x y => "Dimension2(" ++ x.formula ++ ", " ++ y.formula ++ ")"
  | vector v => "Vector(" ++ formatNumber v.x ++ ", " ++ formatNumber v.y ++ ")"
  | angle radians => formatNumber (toDegrees radians) ++ "deg"
  | color c => c.formula
  | bool b => if b then "true" else "false"
  | text s => quoted s

/-- The value as it is shown, and as it joins a text. -/
def shown : Value → String
  | scalar x => formatNumber x
  | quantity q => q.text
  | point x y => "(" ++ x.text ++ ", " ++ y.text ++ ")"
  | vector v => "[" ++ formatNumber v.x ++ ", " ++ formatNumber v.y ++ "]"
  | angle radians => formatNumber (toDegrees radians) ++ "°"
  | color c => c.text
  | bool b => if b then "true" else "false"
  | text s => s

end Value

end FormulaGraph
