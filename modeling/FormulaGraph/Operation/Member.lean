import FormulaGraph.Operation.Fault
import FormulaGraph.Text.LetterCase

/-! Fields and methods of values. A member asked of a kind that does not have it is not found. -/

namespace FormulaGraph

def Value.scalarOr (value : Value) : Except ValueFault Float :=
  match value.asScalar? with
  | some x => .ok x
  | none => .error (.expected .scalar value.kind)

def Value.angleOr (value : Value) : Except ValueFault Float :=
  match value.asAngle? with
  | some radians => .ok radians
  | none => .error (.expected .angle value.kind)

/-- The coordinates of a point in the unit of `x`. -/
def coordinates (x y : Quantity) : Planar := ⟨x.magnitude, y.inUnit x.unit⟩

/-- A point with these coordinates in the unit and dimension of `like`. -/
def pointAlike (v : Planar) (like : Quantity) : Value :=
  .point { like with magnitude := v.x } { like with magnitude := v.y }

def normalised (v : Planar) : Applied :=
  match v.normalise? with
  | some v => .ok (.vector v)
  | none => .error .noDirection

def Field.read (field : Field) (receiver : Value) : Applied :=
  match field, receiver with
  | .inUnit unit, .quantity q => .ok (.scalar (q.inUnit unit))
  | .exponent, .quantity q => .ok (.scalar (Float.ofInt q.exponent.toInt))
  | .x, .point a _ => .ok (.quantity a)
  | .y, .point _ b => .ok (.quantity b)
  | .length, .point a b => .ok (.quantity { a with magnitude := (coordinates a b).length })
  | .angle, .point a b => .ok (.angle (coordinates a b).direction)
  | .x, .vector v => .ok (.scalar v.x)
  | .y, .vector v => .ok (.scalar v.y)
  | .length, .vector v => .ok (.scalar v.length)
  | .angle, .vector v => .ok (.angle v.direction)
  | .degrees, .angle t => .ok (.scalar (toDegrees t))
  | .radians, .angle t => .ok (.scalar t)
  | .sin, .angle t => .ok (.scalar t.sin)
  | .cos, .angle t => .ok (.scalar t.cos)
  | .tan, .angle t => .ok (.scalar t.tan)
  | .red, .color c => .ok (.scalar c.red)
  | .green, .color c => .ok (.scalar c.green)
  | .blue, .color c => .ok (.scalar c.blue)
  | .alpha, .color c => .ok (.scalar c.alpha)
  | .length, .text s => .ok (.scalar (Float.ofNat s.length))
  | field, _ => .error (.noMember field.name)

def distanceBetween (x y x' y' : Quantity) : Applied :=
  if x.sameDimension x' then
    let there : Planar := ⟨x'.inUnit x.unit, y'.inUnit x.unit⟩
    .ok (.quantity { x with magnitude := (coordinates x y).distance there })
  else .error .pointDimensions

def Method.call (method : Method) (receiver : Value) (arguments : List Value) : Applied :=
  if arguments.length = method.arity then
    match method, receiver, arguments with
    | .abs, .scalar x, _ => .ok (.scalar x.abs)
    | .abs, .quantity q, _ => .ok (.quantity q.abs)
    | .round, .scalar x, _ => .ok (.scalar (roundAway x))
    | .rotate, .point x y, [turn] => do
      return pointAlike ((coordinates x y).rotate (.ofAngle (← turn.angleOr))) x
    | .distance, .point x y, [other] =>
      match other with
      | .point x' y' => distanceBetween x y x' y'
      | other => .error (.expected .point other.kind)
    | .normalise, .point x y, _ => normalised (coordinates x y)
    | .normalise, .vector v, _ => normalised v
    | .rotate, .vector v, [turn] => do return .vector (v.rotate (.ofAngle (← turn.angleOr)))
    | .dot, .vector v, [other] =>
      match other with
      | .vector w => .ok (.scalar (v.dot w))
      | other => .error (.expected .vector other.kind)
    | .brighter, .color c, _ => .ok (.color c.brighter)
    | .darker, .color c, _ => .ok (.color c.darker)
    | .withAlpha, .color c, [alpha] => do return .color (c.withAlpha (← alpha.scalarOr))
    | .toUpper, .text s, _ => .ok (.text (toUpperText s))
    | .toLower, .text s, _ => .ok (.text (toLowerText s))
    | method, _, _ => .error (.noMember method.name)
  else .error (.methodArity method arguments.length)

end FormulaGraph
