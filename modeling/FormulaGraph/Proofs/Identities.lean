import FormulaGraph.Proofs.Exactness
import FormulaGraph.Proofs.Formatting

/-! Equations between doubles that hold for all of them: infinities and what is no number included. -/

namespace FormulaGraph

open Float.Model (UnpackedFloat)
open Float.Model.UnpackedFloat

variable {r r' : UnpackedFloat} {bits : BitVec 64} {x y : Float}

/-! All doubles are told apart by what they are unpacked to. -/

theorem fields_of_notANumber (h : unpack .binary64 bits = .notANumber) :
    @unpackExponent .binary64 bits = -1#_ ∧ @unpackMantissa .binary64 bits ≠ 0#_ := by
  rw [unpack] at h
  split at h
  next hexponent =>
    split at h
    · cases h
    next hmantissa => exact ⟨hexponent, hmantissa⟩
  next => split at h <;> first | cases h | (split at h <;> cases h)

/-- There is one double that is no number. -/
theorem eq_of_notANumber (hx : unpacked x = .notANumber) (hy : unpacked y = .notANumber) : x = y := by
  have hbits : ∀ z : Float, unpacked z = .notANumber → z.toModel.toBits.toBitVec = packedNaN .binary64 := fun z hz =>
    have ⟨hexponent, hmantissa⟩ := fields_of_notANumber hz
    z.toModel.valid.eq_packedNaN hexponent hmantissa
  have hsame : x.toModel.toBits.toBitVec.toNat = y.toModel.toBits.toBitVec.toNat := by rw [hbits x hx, hbits y hy]
  exact Float.toBits_inj.mp (UInt64.toNat_inj.mp hsame)

theorem unpacked_injective : Function.Injective unpacked := by
  intro x y h
  cases hx : unpacked x with
  | notANumber => exact eq_of_notANumber hx (h ▸ hx)
  | zero | finite => exact unpacked_inj (by rw [isFinite_eq, hx]; rfl) (by rw [isFinite_eq, ← h, hx]; rfl) h
  | infinity s =>
    have hinf : ∀ z, unpacked z = .infinity s → z.isInf = true := fun z hz => by
      change (unpacked z).isInf = true
      rw [hz]
      rfl
    obtain rfl | rfl := eq_infinity (hinf x hx) <;> obtain rfl | rfl := eq_infinity (hinf y (h ▸ hx)) <;>
      first | rfl | cases h

/-! Signs. -/

/-- Negating is exact. -/
theorem unpacked_neg_eq (x : Float) : unpacked (-x) = (unpacked x).neg := by
  rw [unpacked_neg]
  cases hx : unpacked x with
  | notANumber => rfl
  | infinity s => exact unpack_pack_infinity _
  | zero s => exact unpack_pack_zero _
  | finite =>
    obtain ⟨s, h⟩ | ⟨s, m, e, hc, he, h⟩ := unpacked_cases (x := x) (by rw [isFinite_eq, hx]; rfl)
    · rw [hx] at h
      cases h
    · rw [← hx, h]
      exact unpack_pack_finite hc he

/-- So is dropping the sign. -/
theorem unpacked_abs_eq (x : Float) : unpacked x.abs = (unpacked x).abs := by
  rw [unpacked_abs]
  cases hx : unpacked x with
  | notANumber => rfl
  | infinity s => exact unpack_pack_infinity _
  | zero s => exact unpack_pack_zero _
  | finite =>
    obtain ⟨s, h⟩ | ⟨s, m, e, hc, he, h⟩ := unpacked_cases (x := x) (by rw [isFinite_eq, hx]; rfl)
    · rw [hx] at h
      cases h
    · rw [← hx, h]
      exact unpack_pack_finite hc he

theorem abs_eq_of_rational (hx : x.isFinite = true) (hy : y.isFinite = true) (h : |rational x| = |rational y|) :
    x.abs = y.abs := by
  obtain ⟨hxa, hxv⟩ := rational_abs hx
  obtain ⟨hya, hyv⟩ := rational_abs hy
  have hvalue : rational x.abs = rational y.abs := by rw [hxv, hyv, h]
  refine eq_of_rational hxa hya hvalue fun s hs => ?_
  rw [rational, hs, rationalOf_zero, rational] at hvalue
  rw [unpacked_abs_eq] at hs hvalue ⊢
  obtain rfl : s = .positive := by
    cases hr : unpacked x <;> rw [hr] at hs <;> cases hs
    rfl
  obtain ⟨s', h'⟩ | ⟨s', m, e, hc, -, h'⟩ := unpacked_cases hy
  · rw [h']
    rfl
  · rw [h'] at hvalue
    exact absurd hvalue hc.magnitude_pos.ne

theorem abs_of_isInf (hx : x.isInf = true) : x.abs = 1 / 0 := by
  obtain rfl | rfl := eq_infinity hx <;> decide

/-! Products, sums and differences. -/

theorem sign_mul_comm (s s' : Sign) : s * s' = s' * s := by
  cases s <;> cases s' <;> rfl

theorem unpacked_mul_comm (r r' : UnpackedFloat) : mul .binary64 r r' = mul .binary64 r' r := by
  cases r <;> cases r' <;> simp only [mul, sign_mul_comm, Nat.mul_comm, Int.add_comm]

protected theorem Double.mul_comm (x y : Float) : x * y = y * x :=
  congrArg packed (unpacked_mul_comm (unpacked x) (unpacked y))

protected theorem Double.mul_one (x : Float) : x * 1 = x := by
  by_cases hx : x.isFinite = true
  · exact mul_one_eq hx
  refine unpacked_injective ?_
  rw [unpacked_mul]
  rw [isFinite_eq] at hx
  cases hr : unpacked x with
  | notANumber => rfl
  | infinity s => cases s <;> rfl
  | zero | finite => exact absurd (congrArg UnpackedFloat.isFinite hr) hx

theorem unpacked_sub_eq (r r' : UnpackedFloat) : sub .binary64 r r' = add .binary64 r r'.neg := by
  have hneg : ∀ (s : Sign) (m : Nat), (-s).apply m = -s.apply m := fun s m => by cases s <;> simp [Sign.apply]
  cases r <;> cases r' <;> simp only [sub, add, UnpackedFloat.neg, hneg, Int.sub_eq_add_neg]

protected theorem Double.sub_eq_add_neg (x y : Float) : x - y = x + -y := by
  have h := congrArg packed (unpacked_sub_eq (unpacked x) (unpacked y))
  rw [← unpacked_neg_eq] at h
  exact h

theorem abs_sub_comm_of_infinite (h : ¬ (r.isFinite = true ∧ r'.isFinite = true)) :
    (sub .binary64 r r').isFinite = false ∧ (sub .binary64 r r').abs = (sub .binary64 r' r).abs := by
  cases r with
  | notANumber => cases r' <;> exact ⟨rfl, rfl⟩
  | infinity s =>
    cases r' with
    | infinity s' => cases s <;> cases s' <;> exact ⟨rfl, rfl⟩
    | notANumber | zero | finite => exact ⟨rfl, rfl⟩
  | zero | finite =>
    cases r' with
    | notANumber | infinity => exact ⟨rfl, rfl⟩
    | zero | finite => exact absurd ⟨rfl, rfl⟩ h

theorem unpacked_packed_of_infinite (h : r.isFinite = false) : unpacked (packed r) = r := by
  cases r with
  | notANumber => rfl
  | infinity s => exact unpack_pack_infinity s
  | zero | finite => cases h

theorem isFinite_of_packed (h : (packed r).isFinite = true) : r.isFinite = true := by
  by_contra hr
  rw [isFinite_eq, unpacked_packed_of_infinite (Bool.eq_false_iff.mpr hr)] at h
  exact hr h

/-- Nothing infinite is left of a finite product. -/
theorem isFinite_of_mul (h : (x * y).isFinite = true) : x.isFinite = true ∧ y.isFinite = true := by
  have hproduct : (mul .binary64 (unpacked x) (unpacked y)).isFinite = true := isFinite_of_packed h
  rw [isFinite_eq, isFinite_eq]
  cases hx : unpacked x <;> cases hy : unpacked y <;> rw [hx, hy] at hproduct <;>
    first | exact ⟨rfl, rfl⟩ | cases hproduct

theorem isFinite_of_div (h : (x / y).isFinite = true) : x.isFinite = true := by
  have hquotient : (div .binary64 (unpacked x) (unpacked y)).isFinite = true := isFinite_of_packed h
  rw [isFinite_eq]
  cases hx : unpacked x <;> cases hy : unpacked y <;> rw [hx, hy] at hquotient <;>
    first | rfl | cases hquotient

/-- Which of the two is taken from the other makes no difference but the sign. -/
protected theorem Double.abs_sub_comm (x y : Float) : (x - y).abs = (y - x).abs := by
  by_cases h : x.isFinite = true ∧ y.isFinite = true
  · obtain ⟨hx, hy⟩ := h
    have hleft := rounds_sub hx hy
    have hright := rounds_sub hy hx
    have hopposite : |nearest (rational y - rational x)| = |nearest (rational x - rational y)| := by
      rw [← neg_sub, nearest_neg, abs_neg]
    by_cases hfinite : (x - y).isFinite = true
    · have hfinite' := hright.isFinite_iff.mpr (hopposite ▸ hleft.isFinite_iff.mp hfinite)
      refine abs_eq_of_rational hfinite hfinite' ?_
      rw [hleft.value hfinite, hright.value hfinite', hopposite]
    · have hinfinite' : (y - x).isFinite ≠ true := fun h' =>
        hfinite (hleft.isFinite_iff.mpr (hopposite ▸ hright.isFinite_iff.mp h'))
      rw [abs_of_isInf (isInf_of_not_isFinite hleft.isNumber hfinite),
        abs_of_isInf (isInf_of_not_isFinite hright.isNumber hinfinite')]
  · have hsub : ∀ x y : Float, x - y = packed (sub .binary64 (unpacked x) (unpacked y)) := fun _ _ => rfl
    obtain ⟨hfinite, habs⟩ := @abs_sub_comm_of_infinite (unpacked x) (unpacked y) h
    obtain ⟨hfinite', -⟩ := @abs_sub_comm_of_infinite (unpacked y) (unpacked x) fun h' => h h'.symm
    refine unpacked_injective ?_
    rw [unpacked_abs_eq, unpacked_abs_eq, hsub, hsub, unpacked_packed_of_infinite hfinite,
      unpacked_packed_of_infinite hfinite', habs]

/-! Comparing. -/

theorem unpacked_compare_swap (r r' : UnpackedFloat) : (r.compare r').map Ordering.swap = r'.compare r := by
  obtain ⟨⟨⟩⟩ | _ | _ | ⟨⟨⟩, m, e, hm⟩ := r <;> obtain ⟨⟨⟩⟩ | _ | _ | ⟨⟨⟩, m', e', hm'⟩ := r' <;>
    first
    | rfl
    | simp only [UnpackedFloat.compare, Option.map_some, Ordering.swap_then, Int.compare_swap,
        Nat.compare_swap]

protected theorem Double.lt_asymm (h : x < y) : ¬ y < x := by
  rw [lt_iff_compare] at h ⊢
  rw [← unpacked_compare_swap, h]
  exact fun h => by cases h

theorem lt_infinity (hx : x.isFinite = true) : x < 1 / 0 := by
  rw [lt_iff_compare]
  obtain ⟨s, h⟩ | ⟨s, m, e, hc, -, h⟩ := unpacked_cases hx <;> rw [h] <;> cases s <;> rfl

/-- Of two numbers neither of which is less than the other in magnitude, the magnitudes are the same. -/
theorem abs_eq_of_not_lt (hx : x.isNaN = false) (hy : y.isNaN = false) (h : ¬ x.abs < y.abs) (h' : ¬ y.abs < x.abs) :
    x.abs = y.abs := by
  by_cases hxf : x.isFinite = true <;> by_cases hyf : y.isFinite = true
  · obtain ⟨hxa, hxv⟩ := rational_abs hxf
    obtain ⟨hya, hyv⟩ := rational_abs hyf
    rw [lt_iff hxa hya, hxv, hyv, not_lt] at h
    rw [lt_iff hya hxa, hxv, hyv, not_lt] at h'
    exact abs_eq_of_rational hxf hyf (le_antisymm h' h)
  · rw [abs_of_isInf (isInf_of_not_isFinite hy hyf)] at h
    exact absurd (lt_infinity (rational_abs hxf).1) h
  · rw [abs_of_isInf (isInf_of_not_isFinite hx hxf)] at h'
    exact absurd (lt_infinity (rational_abs hyf).1) h'
  · rw [abs_of_isInf (isInf_of_not_isFinite hx hxf), abs_of_isInf (isInf_of_not_isFinite hy hyf)]

theorem isNaN_abs (x : Float) : x.abs.isNaN = x.isNaN := by
  change (unpacked x.abs).isNaN = (unpacked x).isNaN
  rw [unpacked_abs_eq]
  cases unpacked x <;> rfl

theorem larger_abs_comm (x y : Float) : larger x.abs y.abs = larger y.abs x.abs := by
  rw [larger, larger, isNaN_abs, isNaN_abs]
  cases hx : x.isNaN <;> cases hy : y.isNaN <;> simp only [Bool.false_eq_true, if_true, if_false]
  · split
    next hlt => rw [if_neg (Double.lt_asymm hlt)]
    next hge =>
      split
      next hlt' => rfl
      next hge' => exact abs_eq_of_not_lt hx hy hge hge'
  · have hnone : ∀ z : Float, z.isNaN = true → unpacked z = .notANumber := fun z hz => by
      change (unpacked z).isNaN = true at hz
      cases hr : unpacked z <;> rw [hr] at hz <;> first | rfl | cases hz
    rw [eq_of_notANumber (hnone x hx) (hnone y hy)]

/-- Tolerance does not tell two numbers apart. -/
theorem approxEq_comm (x y : Float) : approxEq x y = approxEq y x := by
  rw [approxEq, approxEq, Double.abs_sub_comm, larger_abs_comm]

/-! Powers. -/

/-- `powerFrom` for exponents with no more than so many binary digits. -/
def powerIn : ℕ → Float → Float → ℕ → Float
  | 0, product, _, _ => product
  | k + 1, product, x, n => powerIn k (if n % 2 = 1 then product * x else product) (x * x) (n / 2)

theorem powerFrom_eq_powerIn {k n : ℕ} (h : n < 2 ^ k) (product x : Float) :
    powerFrom product x n = powerIn k product x n := by
  induction k generalizing n product x with
  | zero =>
    obtain rfl : n = 0 := by omega
    rw [powerFrom]
    rfl
  | succ k ih =>
    have hhalf : n / 2 < 2 ^ k := by omega
    rw [powerFrom, powerIn, ← ih hhalf]
    split
    next hzero =>
      rw [hzero, powerFrom]
      rfl
    next => rfl

def intPowerIn (k : ℕ) (x : Float) (n : Int32) : Float :=
  if n < 0 then 1 / powerIn k 1 x n.toInt.natAbs else powerIn k 1 x n.toInt.natAbs

theorem intPower_eq_intPowerIn {k : ℕ} {n : Int32} (h : n.toInt.natAbs < 2 ^ k) (x : Float) :
    intPower x n = intPowerIn k x n := by
  rw [intPower, powerFrom_eq_powerIn h, intPowerIn]

theorem intPower_zero (x : Float) : intPower x 0 = 1 := intPower_eq_intPowerIn (k := 0) (by decide) x

/-! Conversions that change nothing. -/

theorem inUnit_eq_magnitude {q : Quantity} {u : LengthUnit} (h : q.unit = u ∨ q.exponent = 0) :
    q.inUnit u = q.magnitude := by
  obtain rfl | hzero := h
  · rw [inUnit_self, Double.mul_one]
  · rw [Quantity.inUnit, hzero, intPower_zero, Double.mul_one]

end FormulaGraph
