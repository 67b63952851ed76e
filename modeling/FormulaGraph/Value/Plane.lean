import FormulaGraph.Number.Basic

/-! Directions and offsets in the plane, without a unit. -/

namespace FormulaGraph

structure Planar where
  x : Float
  y : Float
deriving BEq, Repr

namespace Planar

def add (a b : Planar) : Planar := ⟨a.x + b.x, a.y + b.y⟩

def sub (a b : Planar) : Planar := ⟨a.x - b.x, a.y - b.y⟩

def neg (a : Planar) : Planar := ⟨-a.x, -a.y⟩

def scale (a : Planar) (factor : Float) : Planar := ⟨a.x * factor, a.y * factor⟩

def divide (a : Planar) (divisor : Float) : Planar := ⟨a.x / divisor, a.y / divisor⟩

def dot (a b : Planar) : Float := a.x * b.x + a.y * b.y

def length (a : Planar) : Float := (a.dot a).sqrt

def distance (a b : Planar) : Float := (a.sub b).length

def ofAngle (radians : Float) : Planar := ⟨radians.cos, radians.sin⟩

def direction (a : Planar) : Float := Float.atan2 a.y a.x

/-- Turned by the direction of the unit vector `by`. -/
def rotate (a turn : Planar) : Planar :=
  ⟨turn.x * a.x - turn.y * a.y, turn.y * a.x + turn.x * a.y⟩

/-- Of length one. A vector whose length has no usable reciprocal has no direction. -/
def normalise? (a : Planar) : Option Planar :=
  let reciprocal := 1 / a.length
  if reciprocal.isFinite && 0 < reciprocal then some (a.scale reciprocal) else none

end Planar

end FormulaGraph
