import FormulaGraph.Operation.Apply
import FormulaGraph.Proofs.Identities

/-! Equality up to tolerance, from either side. Numbers less than one are compared as if they were one, in the
unit on the left. So the sides make a difference only between units, where numbers are small or their difference is
about the tolerance. -/

namespace FormulaGraph

namespace Quantity

variable {p q : Quantity}

/-- What turns magnitudes of `q` into those of another unit. -/
def factor (q : Quantity) (unit : LengthUnit) : Float :=
  intPower (q.unit.millimetres / unit.millimetres) q.exponent

/-- Either quantity is finite in either unit, and converting there and back changes next to nothing. -/
structure Convertible (p q : Quantity) : Prop where
  left : p.magnitude.isFinite = true
  right : q.magnitude.isFinite = true
  leftThere : (p.inUnit q.unit).isFinite = true
  rightThere : (q.inUnit p.unit).isFinite = true
  inverse : |rational (p.factor q.unit) * rational (q.factor p.unit) - 1| ≤ 1 / 10 ^ 12

/-- The larger of two quantities, in the unit of the first. -/
def extent (p q : Quantity) : ℚ := max |rational p.magnitude| |rational (q.inUnit p.unit)|

def gap (p q : Quantity) : ℚ := |rational p.magnitude - rational (q.inUnit p.unit)|

/-- Their relative difference is beyond doubt either within the tolerance or outside it. Outside it, one of the two
has to be no less than one in either unit. -/
def Clear (p q : Quantity) : Prop :=
  p.gap q ≤ 95 / 100 * (p.extent q / 10 ^ 9) ∨
    105 / 100 * (p.extent q / 10 ^ 9) < p.gap q ∧ 1 ≤ p.extent q ∧ 1 ≤ q.extent p

/-- If the two compare at all, either no conversion is needed, or the result is clear in both units. -/
def Settled (p q : Quantity) : Prop :=
  p.exponent = q.exponent → (p.unit = q.unit ∨ p.exponent = 0) ∨ p.Convertible q ∧ p.Clear q

end Quantity

namespace Value

/-- Comparing the two involves no other quantities than settled ones. -/
def Settled : Value → Value → Prop
  | .quantity p, .quantity q => p.Settled q
  | .point x y, .point x' y' => x.Settled x' ∧ y.Settled y'
  | _, _ => True

/-- Values of any kinds as far as they count as scalars. -/
def scalarsEq? (a b : Value) : Option Bool := do return FormulaGraph.approxEq (← a.asScalar?) (← b.asScalar?)

/-- What two values are compared as. -/
inductive Compared : Value → Value → Prop
  | quantity (p q : Quantity) : Compared (.quantity p) (.quantity q)
  | point (x y x' y' : Quantity) : Compared (.point x y) (.point x' y')
  | vector (v w : Planar) : Compared (.vector v) (.vector w)
  | angle (r s : Float) : Compared (.angle r) (.angle s)
  | color (c d : Color) : Compared (.color c) (.color d)
  | bool (b c : Bool) : Compared (.bool b) (.bool c)
  | text (s t : String) : Compared (.text s) (.text t)
  | scalar {a b : Value} (h : a.approxEq? b = a.scalarsEq? b) (h' : b.approxEq? a = b.scalarsEq? a) : Compared a b

theorem compared (a b : Value) : Compared a b := by
  cases a <;> cases b <;>
    first
    | exact .quantity _ _
    | exact .point _ _ _ _
    | exact .vector _ _
    | exact .angle _ _
    | exact .color _ _
    | exact .bool _ _
    | exact .text _ _
    | exact .scalar rfl rfl

end Value

variable {a b : Value} {p q : Quantity} {u v : LengthUnit} {m : ℕ} {x y : Float}

theorem Quantity.sameDimension_comm (p q : Quantity) : p.sameDimension q = q.sameDimension p :=
  BEq.comm

/-! Conversions there and back. -/

theorem isFinite_of_rational_ne_zero (h : rational x ≠ 0) : x.isFinite = true := by
  rw [rational] at h
  rw [isFinite_eq]
  cases hx : unpacked x with
  | zero | finite => rfl
  | notANumber | infinity =>
    rw [hx] at h
    exact absurd rfl h

/-- The product is one as far as can be told. -/
def Inverse (x y : Float) : Prop := (x * y - 1).abs < 1e-13 * 1

theorem Inverse.symm (h : Inverse x y) : Inverse y x := by
  rw [Inverse, Double.mul_comm]
  exact h

theorem Inverse.le (h : Inverse x y) : |rational x * rational y - 1| ≤ 1 / 10 ^ 12 := by
  obtain ⟨hone, hov⟩ := rational_one
  obtain ⟨hbound, -, hhigh⟩ := scaled_bounds (k := 13) (by decide) (by decide) hone hov.ge
  have hdifference := isFinite_of_lt h hbound
  have hproduct := isFinite_of_sub hdifference hone
  obtain ⟨hx, hy⟩ := isFinite_of_mul hproduct
  obtain ⟨ha, hav⟩ := rational_abs hdifference
  have hsmall := (lt_iff ha hbound).mp h
  have hnear := (rounds_sub hproduct hone).near hdifference
  have hnear' := (rounds_mul hx hy).near hproduct
  have hleast := least_le
  rw [hav] at hsmall
  rw [hov] at hnear hhigh
  have hgap := abs_sub_abs_le_abs_sub (rational (x * y) - 1) (rational (x * y - 1))
  have hsize := abs_sub_abs_le_abs_sub (rational x * rational y) 1
  have htriangle := abs_sub_le (rational x * rational y) (rational (x * y)) 1
  rw [abs_sub_comm (rational (x * y) - 1)] at hgap
  rw [abs_one] at hsize
  rw [abs_sub_comm _ (rational (x * y))] at htriangle
  linarith

/-- A power of one unit taken for that of another, and back again, is the same as far as can be told. -/
def Undoes (m : ℕ) (u v : LengthUnit) : Prop :=
  Inverse (powerIn 2 1 (u.millimetres / v.millimetres) m) (powerIn 2 1 (v.millimetres / u.millimetres) m) ∧
    Inverse (1 / powerIn 2 1 (u.millimetres / v.millimetres) m) (1 / powerIn 2 1 (v.millimetres / u.millimetres) m)

theorem undoes_self (hm : m < 2 ^ 2) (u : LengthUnit) : Undoes m u u := by
  have hpower : powerIn 2 1 (u.millimetres / u.millimetres) m = 1 := by
    rw [← powerFrom_eq_powerIn hm, LengthUnit.millimetres_div_self, powerFrom_one]
  rw [Undoes, hpower]
  exact ⟨by unfold Inverse; decide, by unfold Inverse; decide⟩

instance : Std.Symm (Undoes m) := ⟨fun _ _ h => ⟨h.1.symm, h.2.symm⟩⟩

theorem undoes (hm : m < 2 ^ 2) (u v : LengthUnit) : Undoes m u v := by
  have hmem : ∀ u : LengthUnit, u ∈ LengthUnit.all := fun u => by cases u <;> decide
  have hpairs : LengthUnit.all.Pairwise (Undoes m) := by
    unfold Undoes Inverse
    match m, hm with
    | 0, _ => decide +kernel
    | 1, _ => decide +kernel
    | 2, _ => decide +kernel
    | 3, _ => decide +kernel
  exact hpairs.forall_of_forall (fun u _ => undoes_self hm u) (hmem u) (hmem v)

/-- What a conversion makes of a difference and of the larger number, if there is a conversion back. Here `tiny` is
what rounding adds to numbers that are next to nothing. -/
theorem converted_bounds {x y x' y' factor back tiny : ℚ} (hx : |x' - x * factor| ≤ |x * factor| / 2 ^ 53 + tiny)
    (hy : |y - y' * back| ≤ |y' * back| / 2 ^ 53 + tiny) (hinverse : |factor * back - 1| ≤ 1 / 10 ^ 12)
    (htiny : tiny ≤ 1 / 10 ^ 15) (hfactor : tiny * |factor| ≤ 1 / 10 ^ 15) :
    |x' - y'| ≤ |factor| * |x - y| + 2 / 10 ^ 12 * max |x'| |y'| + 1 / 10 ^ 14 ∧
      |factor| * max |x| |y| ≤ (1 + 2 / 10 ^ 12) * max |x'| |y'| + 1 / 10 ^ 14 := by
  have hback : |y' * back * factor - y'| ≤ 1 / 10 ^ 12 * |y'| := by
    have hsplit : y' * back * factor - y' = (factor * back - 1) * y' := by ring
    rw [hsplit, abs_mul]
    exact mul_le_mul_of_nonneg_right hinverse (abs_nonneg _)
  have hthere : |y * factor - y' * back * factor| ≤ |y' * back * factor| / 2 ^ 53 + tiny * |factor| := by
    rw [← sub_mul, abs_mul, abs_mul (y' * back)]
    have := mul_le_mul_of_nonneg_right hy (abs_nonneg factor)
    linarith
  have hdifference : |x * factor - y * factor| = |factor| * |x - y| := by rw [← sub_mul, abs_mul, mul_comm]
  have hwhole := abs_sub_abs_le_abs_sub (y' * back * factor) y'
  have hscaled := abs_sub_abs_le_abs_sub (y * factor) (y' * back * factor)
  have hleft := abs_sub_abs_le_abs_sub (x * factor) x'
  rw [abs_sub_comm (x * factor)] at hleft
  have hmax := le_max_left |x'| |y'|
  have hmax' := le_max_right |x'| |y'|
  have hnonneg := abs_nonneg x'
  have hnonneg' := abs_nonneg y'
  constructor
  · have hfirst := abs_sub_le x' (x * factor) y'
    have hsecond := abs_sub_le (x * factor) (y * factor) y'
    have hthird := abs_sub_le (y * factor) (y' * back * factor) y'
    linarith
  · rw [mul_comm, max_mul_of_nonneg _ _ (abs_nonneg _), ← abs_mul, ← abs_mul]
    refine max_le ?_ ?_ <;> linarith

namespace Quantity

/-- Lengths, areas and volumes, and what is divided by them, keep their magnitudes. -/
theorem inverse_factor (h : p.exponent = q.exponent) (hn : p.exponent.toInt.natAbs ≤ 3) :
    |rational (p.factor q.unit) * rational (q.factor p.unit) - 1| ≤ 1 / 10 ^ 12 := by
  have hm : p.exponent.toInt.natAbs < 2 ^ 2 := by omega
  obtain ⟨hpower, hreciprocal⟩ := undoes hm p.unit q.unit
  rw [factor, factor, ← h, intPower_eq_intPowerIn hm, intPower_eq_intPowerIn hm, intPowerIn, intPowerIn]
  split
  · exact hreciprocal.le
  · exact hpower.le

theorem extent_nonneg (p q : Quantity) : 0 ≤ p.extent q := (abs_nonneg _).trans (le_max_left _ _)

theorem Convertible.symm (h : p.Convertible q) : q.Convertible p :=
  ⟨h.right, h.left, h.rightThere, h.leftThere, by rw [mul_comm]; exact h.inverse⟩

/-- How the difference and the larger of two quantities come out in the unit of the second. -/
theorem Convertible.bounds (h : p.Convertible q) :
    q.gap p ≤ |rational (p.factor q.unit)| * p.gap q + 2 / 10 ^ 12 * q.extent p + 1 / 10 ^ 14 ∧
      |rational (p.factor q.unit)| * p.extent q ≤ (1 + 2 / 10 ^ 12) * q.extent p + 1 / 10 ^ 14 := by
  have hinverse := abs_le.mp h.inverse
  have hfactor : (p.factor q.unit).isFinite = true := isFinite_of_rational_ne_zero fun hzero => by
    rw [hzero] at hinverse
    linarith
  have hback : (q.factor p.unit).isFinite = true := isFinite_of_rational_ne_zero fun hzero => by
    rw [hzero] at hinverse
    linarith
  have hleast := least_le
  have hlarge := abs_mul_least_le hfactor
  rw [mul_comm] at hlarge
  have hbounds := converted_bounds ((rounds_mul h.left hfactor).near h.leftThere)
    ((rounds_mul h.right hback).near h.rightThere) h.inverse (by linarith) hlarge
  rw [gap, gap, extent, extent, abs_sub_comm (rational q.magnitude), max_comm |rational q.magnitude|]
  exact hbounds

/-- Quantities whose difference is clearly within the tolerance are equal from either side. -/
theorem Convertible.approxEq_of_gap_le (h : p.Convertible q) (hgap : p.gap q ≤ 95 / 100 * (p.extent q / 10 ^ 9)) :
    FormulaGraph.approxEq p.magnitude (q.inUnit p.unit) = true ∧
      FormulaGraph.approxEq q.magnitude (p.inUnit q.unit) = true := by
  obtain ⟨hdifference, hsize⟩ := h.bounds
  have hscaled := mul_le_mul_of_nonneg_left hgap (abs_nonneg (rational (p.factor q.unit)))
  have hextent := le_max_left (p.extent q) 1
  have hextent' := le_max_left (q.extent p) 1
  have hone' := le_max_right (q.extent p) 1
  have hnonneg := p.extent_nonneg q
  refine ⟨approxEq_of_le h.left h.rightThere ?_, approxEq_of_le h.right h.leftThere ?_⟩
  · change p.gap q ≤ 97 / 100 * (max (p.extent q) 1 / 10 ^ 9)
    linarith
  · change q.gap p ≤ 97 / 100 * (max (q.extent p) 1 / 10 ^ 9)
    linarith

/-- Equality allows no more than the tolerance, where numbers are not small. -/
theorem Convertible.gap_le_of_approxEq (h : p.Convertible q) (hone : 1 ≤ p.extent q)
    (heq : FormulaGraph.approxEq p.magnitude (q.inUnit p.unit) = true) :
    p.gap q ≤ 103 / 100 * (p.extent q / 10 ^ 9) := by
  have hle := le_of_approxEq h.left h.rightThere heq
  rw [← extent.eq_def, ← gap.eq_def, max_eq_left hone] at hle
  exact hle

theorem Convertible.approxEq_comm (h : p.Convertible q) (hclear : p.Clear q) :
    FormulaGraph.approxEq p.magnitude (q.inUnit p.unit) = FormulaGraph.approxEq q.magnitude (p.inUnit q.unit) := by
  obtain hgap | ⟨hgap, hone, hone'⟩ := hclear
  · obtain ⟨hleft, hright⟩ := h.approxEq_of_gap_le hgap
    rw [hleft, hright]
  · have hleft : FormulaGraph.approxEq p.magnitude (q.inUnit p.unit) = false := Bool.eq_false_iff.mpr fun heq => by
      have hle := h.gap_le_of_approxEq hone heq
      linarith
    have hright : FormulaGraph.approxEq q.magnitude (p.inUnit q.unit) = false := Bool.eq_false_iff.mpr fun heq => by
      obtain ⟨hdifference, hsize⟩ := h.symm.bounds
      have hscaled := mul_le_mul_of_nonneg_left (h.symm.gap_le_of_approxEq hone' heq)
        (abs_nonneg (rational (q.factor p.unit)))
      linarith
    rw [hleft, hright]

theorem Settled.approxEq_comm (h : p.Settled q) : p.approxEq q = q.approxEq p := by
  rw [approxEq, approxEq, sameDimension_comm]
  cases hsame : q.sameDimension p
  · rw [Bool.false_and, Bool.false_and]
  have hexponent : q.exponent = p.exponent := beq_iff_eq.mp hsame
  obtain hmeasure | ⟨hconvertible, hclear⟩ := h hexponent.symm
  · rw [inUnit_eq_magnitude (q := q) (hmeasure.imp Eq.symm (hexponent.trans ·)), inUnit_eq_magnitude hmeasure,
      FormulaGraph.approxEq_comm]
  · rw [hconvertible.approxEq_comm hclear]

end Quantity

theorem Color.approxEq_comm (c d : Color) : c.approxEq d = d.approxEq c := by
  simp only [approxEq, FormulaGraph.approxEq_comm c.red, FormulaGraph.approxEq_comm c.green,
    FormulaGraph.approxEq_comm c.blue, FormulaGraph.approxEq_comm c.alpha]

namespace Value

theorem scalarsEq?_comm (a b : Value) : a.scalarsEq? b = b.scalarsEq? a := by
  cases ha : a.asScalar? <;> cases hb : b.asScalar? <;> simp [scalarsEq?, ha, hb, FormulaGraph.approxEq_comm]

/-- Whether two values compare does not depend on their order. -/
theorem isSome_approxEq?_comm (a b : Value) : (a.approxEq? b).isSome = (b.approxEq? a).isSome := by
  have hite : ∀ (c x : Bool), (if c then some x else none).isSome = c := fun c _ => by cases c <;> rfl
  cases compared a b with
  | quantity p q => rw [approxEq?, approxEq?, hite, hite, Quantity.sameDimension_comm]
  | point x y x' y' =>
    rw [approxEq?, approxEq?, hite, hite, Quantity.sameDimension_comm x, Quantity.sameDimension_comm y]
  | vector | angle | color | bool | text => rw [approxEq?, approxEq?, Option.isSome_some, Option.isSome_some]
  | scalar h h' => rw [h, h', scalarsEq?_comm]

theorem Settled.approxEq?_comm (h : a.Settled b) : a.approxEq? b = b.approxEq? a := by
  cases compared a b with
  | quantity p q => rw [approxEq?, approxEq?, Quantity.sameDimension_comm, Quantity.Settled.approxEq_comm h]
  | point x y x' y' =>
    rw [approxEq?, approxEq?, Quantity.sameDimension_comm x, Quantity.sameDimension_comm y, h.1.approxEq_comm,
      h.2.approxEq_comm]
  | vector v w => rw [approxEq?, approxEq?, FormulaGraph.approxEq_comm v.x, FormulaGraph.approxEq_comm v.y]
  | angle r s => rw [approxEq?, approxEq?, FormulaGraph.approxEq_comm r]
  | color c d => rw [approxEq?, approxEq?, c.approxEq_comm]
  | bool x y => rw [approxEq?, approxEq?, BEq.comm]
  | text s t => rw [approxEq?, approxEq?, BEq.comm]
  | scalar h h' => rw [h, h', scalarsEq?_comm]

theorem toOption_apply_eq (a b : Value) : (BinaryOp.eq.apply a b).toOption = (a.approxEq? b).map .bool := by
  rw [BinaryOp.apply, combine, equate]
  cases a.approxEq? b <;> rfl

theorem toOption_apply_ne (a b : Value) :
    (BinaryOp.ne.apply a b).toOption = (a.approxEq? b).map fun same => .bool !same := by
  rw [BinaryOp.apply, combine, equate]
  cases a.approxEq? b <;> rfl

end Value

end FormulaGraph
