/-! Decimal numbers `digits * 10 ^ exponent` and their positional text. Reading accepts a sign, digits
with at most one point and an exponent, and the words for infinity and for no number. -/

namespace FormulaGraph

structure Decimal where
  digits : Nat
  exponent : Int
deriving DecidableEq, Repr

/-- The nearest double. Beyond 400 places from the point it is infinite or zero anyway. -/
def Decimal.toFloat (d : Decimal) : Float :=
  let places := d.exponent + (Nat.toDigits 10 d.digits).length
  if d.digits = 0 || places < -400 then 0
  else if 400 < places then 1 / 0
  else Float.ofScientific d.digits (d.exponent < 0) d.exponent.natAbs

/-- All digits are written out, with no zeros after the last place behind the point. -/
def Decimal.text (d : Decimal) : List Char :=
  let digits := Nat.toDigits 10 d.digits
  let places := d.exponent.natAbs
  if 0 ≤ d.exponent then digits ++ List.replicate places '0'
  else if places < digits.length then
    digits.take (digits.length - places) ++ '.' :: digits.drop (digits.length - places)
  else '0' :: '.' :: List.replicate (places - digits.length) '0' ++ digits

def digitsValue (digits : List Char) : Nat :=
  digits.foldl (fun n c => 10 * n + (c.toNat - '0'.toNat)) 0

/-- Digits with at most one point among them, at least one digit, and nothing else. -/
def readPlain? (text : List Char) : Option Decimal :=
  let whole := text.takeWhile Char.isDigit
  match text.dropWhile Char.isDigit with
  | [] => if whole.isEmpty then none else some ⟨digitsValue whole, 0⟩
  | '.' :: fraction =>
    if fraction.all Char.isDigit && !(whole.isEmpty && fraction.isEmpty) then
      some ⟨digitsValue (whole ++ fraction), -fraction.length⟩
    else none
  | _ => none

def readExponent? (text : List Char) : Option Int :=
  let read (digits : List Char) : Option Nat :=
    if !digits.isEmpty && digits.all Char.isDigit then some (digitsValue digits) else none
  match text with
  | '-' :: digits => (read digits).map fun n => -(n : Int)
  | '+' :: digits => (read digits).map Int.ofNat
  | digits => (read digits).map Int.ofNat

def isExponentMark (c : Char) : Bool := c == 'e' || c == 'E'

/-- A number without its sign. -/
def readUnsigned? (text : List Char) : Option Float :=
  let word := String.ofList (text.map Char.toLower)
  if word = "inf" || word = "infinity" then some (1 / 0)
  else if word = "nan" then some (0 / 0)
  else do
    let plain ← readPlain? (text.takeWhile (!isExponentMark ·))
    match text.dropWhile (!isExponentMark ·) with
    | [] => pure plain.toFloat
    | _ :: rest =>
      let exponent ← readExponent? rest
      pure (Decimal.toFloat ⟨plain.digits, plain.exponent + exponent⟩)

def readNumber? (text : List Char) : Option Float :=
  match text with
  | '-' :: rest => (readUnsigned? rest).map (-·)
  | '+' :: rest => readUnsigned? rest
  | rest => readUnsigned? rest

end FormulaGraph
