import FormulaGraph.Number.Decimal

/-! The shortest decimal that reads back as a given double, and among those the nearest one. A tie goes
to the larger. -/

namespace FormulaGraph

/-- The magnitude of a finite double is `mantissa * 2 ^ exponent`. -/
structure Binary where
  mantissa : Nat
  exponent : Int

def Binary.ofFloat (x : Float) : Binary :=
  let bits := x.toBits.toNat
  let fraction := bits % (1 <<< 52)
  match (bits >>> 52) % (1 <<< 11) with
  | 0 => ⟨fraction, -1074⟩
  | field => ⟨(1 <<< 52) + fraction, (field : Int) - 1075⟩

def isNegative (x : Float) : Bool := 1 <<< 63 ≤ x.toBits.toNat

/-- A fraction `top / bottom`, counted in units of `10 ^ exponent`. -/
def Binary.inUnits (b : Binary) (exponent : Int) : Nat × Nat :=
  let top := (b.mantissa <<< b.exponent.toNat) * Nat.pow 10 (-exponent).toNat
  let bottom := (1 <<< (-b.exponent).toNat) * Nat.pow 10 exponent.toNat
  (top, bottom)

/-- The multiple of `10 ^ exponent` next to `b` that reads back as `x`, if there is one. -/
def nearestOn? (x : Float) (b : Binary) (exponent : Int) : Option Decimal :=
  let (top, bottom) := b.inUnits exponent
  let below : Decimal := ⟨top / bottom, exponent⟩
  let above : Decimal := ⟨top / bottom + 1, exponent⟩
  match below.toFloat == x, above.toFloat == x with
  | true, true => if 2 * (top % bottom) < bottom then some below else some above
  | true, false => some below
  | false, true => some above
  | false, false => none

/-- Tries finer and finer units. -/
def shortestFrom (x : Float) (b : Binary) : Nat → Int → Decimal
  | 0, exponent => ⟨(b.inUnits exponent).1 / (b.inUnits exponent).2, exponent⟩
  | tries + 1, exponent =>
    (nearestOn? x b exponent).getD (shortestFrom x b tries (exponent - 1))

/-- The least power of ten that is not less than `b`, or the one above it. -/
def Binary.leading (b : Binary) : Int :=
  let (top, bottom) := b.inUnits 0
  if top < bottom then 1 - ((Nat.toDigits 10 (bottom / top)).length : Int)
  else (Nat.toDigits 10 (top / bottom)).length

/-- The decimal of a positive finite double. Seventeen digits always read back. -/
def shortest (x : Float) : Decimal :=
  let b := Binary.ofFloat x
  shortestFrom x b 20 b.leading

/-- The whole number nearest to `x`; a half goes away from zero, and the sign stays. -/
def roundAway (x : Float) : Float :=
  let b := Binary.ofFloat x
  if 0 ≤ b.exponent then x
  else
    let bottom := 1 <<< b.exponent.natAbs
    let magnitude := Float.ofNat ((2 * b.mantissa + bottom) / (2 * bottom))
    if isNegative x then -magnitude else magnitude

end FormulaGraph
