import FormulaGraph.Number.Basic

/-! Colors with four components between zero and one. -/

namespace FormulaGraph

structure Color where
  red : Float
  green : Float
  blue : Float
  alpha : Float
deriving BEq, Repr

namespace Color

/-- Components outside the range are moved to its nearest end. -/
def clamped (red green blue alpha : Float) : Color :=
  ⟨clamp red 0 1, clamp green 0 1, clamp blue 0 1, clamp alpha 0 1⟩

def solid (red green blue : Float) : Color := clamped red green blue 1

def shade : Float := 0.7

def brighter (c : Color) : Color :=
  clamped (c.red / shade) (c.green / shade) (c.blue / shade) c.alpha

def darker (c : Color) : Color :=
  clamped (c.red * shade) (c.green * shade) (c.blue * shade) c.alpha

def withAlpha (c : Color) (alpha : Float) : Color := clamped c.red c.green c.blue alpha

def approxEq (a b : Color) : Bool :=
  FormulaGraph.approxEq a.red b.red && FormulaGraph.approxEq a.green b.green &&
    FormulaGraph.approxEq a.blue b.blue && FormulaGraph.approxEq a.alpha b.alpha

def formula (c : Color) : String :=
  "Color(" ++ formatNumber c.red ++ ", " ++ formatNumber c.green ++ ", " ++ formatNumber c.blue ++
    ", " ++ formatNumber c.alpha ++ ")"

def hexByte (component : Float) : List Char :=
  let byte := (roundAway (component * 255)).toUInt8.toNat
  [Nat.digitChar (byte / 16), Nat.digitChar (byte % 16)]

def text (c : Color) : String :=
  String.ofList ('#' :: hexByte c.red ++ hexByte c.green ++ hexByte c.blue ++ hexByte c.alpha)

end Color

end FormulaGraph
