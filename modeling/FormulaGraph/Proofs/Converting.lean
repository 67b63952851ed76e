import FormulaGraph.Proofs.Coercing

/-! Ratios to the left of a product or a quotient. What is on their right is brought to their unit first. Results
equal those of scalars all the same, where the numbers on the way are neither too large nor too small. -/

namespace FormulaGraph

open Float.Model (UnpackedFloat)
open Float.Model.UnpackedFloat

variable {v : Value} {q : Quantity} {x y s m f f' : Float} {u : LengthUnit} {n : Int32} {op : BinaryOp}

/-- Finite, and not so small that places are lost. -/
structure Normal (x : Float) : Prop where
  isFinite : x.isFinite = true
  le : 2 ^ (-1022 : ℤ) ≤ |rational x|

/-- The quantity can be brought to the unit, and divided by, with no loss. -/
structure Quantity.Tracks (q : Quantity) (u : LengthUnit) : Prop where
  exponent : q.exponent ≠ Int32.minValue
  factor : Normal (q.factor u)
  magnitude : Normal (q.inUnit u)

/-! Rounding twice. -/

/-- Tolerance does not tell a finite number from an infinite one. -/
theorem approxEq_of_isInf (hx : x.isFinite = true) (hy : y.isInf = true) : approxEq x y = true := by
  have hnumber : x.abs.isNaN = false := by rw [isNaN_abs, isNaN_of_isFinite hx]
  have hnumber' : (1 / 0 : Float).isNaN = false := by decide
  have hlarger : larger x.abs y.abs = 1 / 0 := by
    rw [abs_of_isInf hy, larger, hnumber, hnumber', if_pos (lt_infinity (rational_abs hx).1)]
    rfl
  have hbound : (1e-9 : Float) * larger (1 / 0) 1 = 1 / 0 := by decide
  have hdifference : (x - y).isInf = true := by
    have hsub : (sub .binary64 (unpacked x) (unpacked y)).isInf = true := by
      change (unpacked y).isInf = true at hy
      cases hyu : unpacked y with
      | infinity s => obtain ⟨s', hxu⟩ | ⟨s', m, e, hc, -, hxu⟩ := unpacked_cases hx <;> rw [hxu] <;> rfl
      | notANumber | zero | finite =>
        rw [hyu] at hy
        cases hy
    have hinfinite : (sub .binary64 (unpacked x) (unpacked y)).isFinite = false := by
      cases hr : sub .binary64 (unpacked x) (unpacked y) <;> rw [hr] at hsub <;> first | rfl | cases hsub
    change (unpacked (packed (sub .binary64 (unpacked x) (unpacked y)))).isInf = true
    rw [unpacked_packed_of_infinite hinfinite, hsub]
  rw [approxEq, hlarger, hbound, abs_of_isInf hdifference]
  decide

theorem twice_rounded {a g p r tiny : ℚ} (hg : |g - p| ≤ |p| / 2 ^ 53 + tiny)
    (hr : |r - a * g| ≤ |a * g| / 2 ^ 53 + tiny) (ha : |a| * tiny ≤ 1 / 10 ^ 15) (htiny : tiny ≤ 1 / 10 ^ 15) :
    |r - a * p| ≤ 3 * (|a * p| / 2 ^ 53) + 4 / 10 ^ 15 := by
  have hinner : |a * g - a * p| ≤ |a * p| / 2 ^ 53 + |a| * tiny := by
    rw [← mul_sub, abs_mul, abs_mul]
    have := mul_le_mul_of_nonneg_left hg (abs_nonneg a)
    linarith
  have hsize := abs_sub_abs_le_abs_sub (a * g) (a * p)
  have htriangle := abs_sub_le r (a * g) (a * p)
  have hnonneg := abs_nonneg (a * p)
  linarith

theorem tiny_le : (2 : ℚ) ^ (-1075 : ℤ) ≤ 1 / 10 ^ 15 := least_le.trans (by norm_num)

/-- Equal up to tolerance are two numbers that are next to a third one. -/
theorem approxEq_of_near_both {t : ℚ} (hx : x.isFinite = true) (hy : y.isFinite = true)
    (hxt : |rational x - t| ≤ |t| / 10 ^ 13 + 1 / 10 ^ 13) (hyt : |rational y - t| ≤ |t| / 10 ^ 13 + 1 / 10 ^ 13) :
    approxEq x y = true := by
  have hsize := abs_sub_abs_le_abs_sub t (rational x)
  have htriangle := abs_sub_le (rational x) t (rational y)
  have hmax := (le_max_left |rational x| |rational y|).trans (le_max_left _ 1)
  have hone := le_max_right (max |rational x| |rational y|) 1
  rw [abs_sub_comm t] at hsize htriangle
  exact approxEq_of_le hx hy (by linarith)

/-! Products. -/

/-- A product of three numbers is the same in either order, as far as tolerance tells. -/
theorem approxEq_products (hleft : (s * (m * f)).isFinite = true) (hright : (m * s).isFinite = true) :
    approxEq (s * (m * f)) (m * s * f) = true := by
  obtain ⟨hs, hg⟩ := isFinite_of_mul hleft
  obtain ⟨hm, hf⟩ := isFinite_of_mul hg
  have hwhole := rounds_mul hright hf
  by_cases hfinite : (m * s * f).isFinite = true
  · have hcommon : rational f * (rational m * rational s) = rational s * (rational m * rational f) := by ring
    have hnear := hwhole.near hfinite
    rw [mul_comm] at hnear
    have hx := twice_rounded ((rounds_mul hm hf).near hg) ((rounds_mul hs hg).near hleft) (abs_mul_least_le hs) tiny_le
    have hy := twice_rounded ((rounds_mul hm hs).near hright) hnear (abs_mul_least_le hf) tiny_le
    rw [hcommon] at hy
    have hnonneg := abs_nonneg (rational s * (rational m * rational f))
    exact approxEq_of_near_both (t := rational s * (rational m * rational f)) hleft hfinite (by linarith) (by linarith)
  · exact approxEq_of_isInf hleft (isInf_of_not_isFinite hwhole.isNumber hfinite)

/-! Quotients. -/

theorem Normal.ne_zero (h : Normal x) : rational x ≠ 0 := fun hzero => by
  have hle := h.le
  rw [hzero, abs_zero] at hle
  exact hle.not_gt (zpow_two_pos _)

/-- A normal number is rounded in proportion to itself. -/
theorem Normal.tiny_le (h : Normal x) : 2 ^ (-1075 : ℤ) ≤ |rational x| / 2 ^ 53 := by
  have hsplit : (2 : ℚ) ^ (-1075 : ℤ) = 2 ^ (-1022 : ℤ) / 2 ^ 53 := by
    rw [← zpow_natCast, ← zpow_sub₀ two_ne_zero]
    rfl
  rw [hsplit]
  exact div_le_div_of_nonneg_right h.le (by positivity)

/-- No product with zero is normal. -/
theorem Normal.left_ne_zero (h : Normal (m * f)) : rational m ≠ 0 := fun hzero => by
  obtain ⟨hm, hf⟩ := isFinite_of_mul h.isFinite
  have hnear := (rounds_mul hm hf).near h.isFinite
  rw [hzero, zero_mul, sub_zero, abs_zero] at hnear
  linarith [abs_pos.mpr h.ne_zero, h.tiny_le]

/-- A divisor that has been scaled and rounded, scaled back. -/
theorem scaled_back {a b c d : ℚ} (ha : a ≠ 0) (hd : |d - a * b| ≤ (|a * b| + |d|) / 2 ^ 53)
    (hinverse : |c * b - 1| ≤ 2 / 10 ^ 15) : |c * (d / a) - 1| ≤ 3 / 10 ^ 15 := by
  have hpos := abs_pos.mpr ha
  have hratio : |d / a - b| ≤ (|b| + |d / a|) / 2 ^ 53 := by
    refine le_of_mul_le_mul_left ?_ hpos
    have hdivided : a * (d / a) = d := mul_div_cancel₀ d ha
    have hleft : |a| * |d / a - b| = |d - a * b| := by rw [← abs_mul, mul_sub, hdivided]
    have hright : |a| * ((|b| + |d / a|) / 2 ^ 53) = (|a * b| + |d|) / 2 ^ 53 := by
      rw [← mul_div_assoc, mul_add, ← abs_mul, ← abs_mul, hdivided]
    rw [hleft, hright]
    exact hd
  have hscaled : |c * (d / a) - c * b| ≤ (|c * b| + |c * (d / a)|) / 2 ^ 53 := by
    rw [← mul_sub, abs_mul, abs_mul c b, abs_mul c (d / a), ← mul_add, mul_div_assoc]
    exact mul_le_mul_of_nonneg_left hratio (abs_nonneg c)
  have htriangle := abs_sub_le (c * (d / a)) (c * b) 1
  have hsize := abs_sub_abs_le_abs_sub (c * b) 1
  have hsize' := abs_sub_abs_le_abs_sub (c * (d / a)) 1
  rw [abs_one] at hsize hsize'
  linarith

/-- A quotient is the same whether the divisor is scaled or the result is scaled back, as far as tolerance tells. -/
theorem approxEq_quotients (hnormal : Normal (m * f)) (hf' : f'.isFinite = true)
    (hinverse : |rational f' * rational f - 1| ≤ 2 / 10 ^ 15) (hleft : (s / (m * f)).isFinite = true)
    (hright : (s / m).isFinite = true) : approxEq (s / (m * f)) (s / m * f') = true := by
  obtain ⟨hm, hf⟩ := isFinite_of_mul hnormal.isFinite
  have hs := isFinite_of_div hleft
  have hne := hnormal.ne_zero
  have hdivisor := (rounds_mul hm hf).near hnormal.isFinite
  have hsmall := hnormal.tiny_le
  have hm0 := hnormal.left_ne_zero
  have hback := scaled_back (d := rational (m * f)) hm0 (by linarith) hinverse
  have hwhole := rounds_mul hright hf'
  by_cases hfinite : (s / m * f').isFinite = true
  · have hx := (rounds_div hs hnormal.isFinite hne).near hleft
    have hnear := hwhole.near hfinite
    rw [mul_comm] at hnear
    have hy := twice_rounded ((rounds_div hs hm hm0).near hright) hnear (abs_mul_least_le hf') tiny_le
    have hcommon : rational f' * (rational s / rational m) =
        rational s / rational (m * f) * (rational f' * (rational (m * f) / rational m)) := by
      field_simp
    have hmoved : |rational f' * (rational s / rational m) - rational s / rational (m * f)| ≤
        |rational s / rational (m * f)| * (3 / 10 ^ 15) := by
      rw [hcommon, ← mul_sub_one, abs_mul]
      exact mul_le_mul_of_nonneg_left hback (abs_nonneg _)
    have hsize := abs_sub_abs_le_abs_sub (rational f' * (rational s / rational m)) (rational s / rational (m * f))
    have htriangle := abs_sub_le (rational (s / m * f')) (rational f' * (rational s / rational m))
      (rational s / rational (m * f))
    have hnonneg := abs_nonneg (rational s / rational (m * f))
    have hleast := tiny_le
    exact approxEq_of_near_both (t := rational s / rational (m * f)) hleft hfinite (by linarith) (by linarith)
  · exact approxEq_of_isInf hleft (isInf_of_not_isFinite hwhole.isNumber hfinite)

/-! Powers. -/

theorem inverse_reciprocal (hx : x.isFinite = true) (hne : rational x ≠ 0) (hr : (1 / x).isFinite = true) :
    |rational (1 / x) * rational x - 1| ≤ 2 / 10 ^ 15 := by
  have hnear := (rounds_div rational_one.1 hx hne).near hr
  rw [rational_one.2] at hnear
  have hscaled := mul_le_mul_of_nonneg_right hnear (abs_nonneg (rational x))
  have hleft : |rational (1 / x) - 1 / rational x| * |rational x| = |rational (1 / x) * rational x - 1| := by
    rw [← abs_mul, sub_mul, one_div_mul_cancel hne]
  have hright : |1 / rational x| * |rational x| = 1 := by rw [← abs_mul, one_div_mul_cancel hne, abs_one]
  have htiny := abs_mul_least_le hx
  rw [hleft, add_mul, div_mul_eq_mul_div, hright, mul_comm _ |rational x|] at hscaled
  linarith

/-- The reciprocal of a normal number is finite. -/
theorem Normal.isFinite_reciprocal (h : Normal x) : (1 / x).isFinite = true := by
  have hrounds := rounds_div rational_one.1 h.isFinite h.ne_zero
  rw [rational_one.2] at hrounds
  refine hrounds.finite ?_
  have hlargest : (2 : ℚ) ^ (1022 : ℤ) = 2 ^ 51 * 2 ^ (971 : ℤ) := by
    rw [← zpow_natCast, ← zpow_add₀ two_ne_zero]
    rfl
  calc
    |1 / rational x| = 1 / |rational x| := by rw [abs_div, abs_one]
    _ ≤ 1 / 2 ^ (-1022 : ℤ) := one_div_le_one_div_of_le (zpow_two_pos _) h.le
    _ = 2 ^ (1022 : ℤ) := by rw [zpow_neg, one_div, inv_inv]
    _ = 2 ^ 51 * 2 ^ (971 : ℤ) := hlargest
    _ ≤ greatest := mul_le_mul_of_nonneg_right (by norm_num) (zpow_two_pos _).le

/-- Only finite numbers other than zero have reciprocals that are normal. -/
theorem Normal.of_reciprocal (h : Normal (1 / x)) : x.isFinite = true ∧ rational x ≠ 0 := by
  have hone : unpacked 1 = .finite .positive (2 ^ 52) (-52) (by decide) := rfl
  have hdiv : 1 / x = packed (div .binary64 (.finite .positive (2 ^ 52) (-52) (by decide)) (unpacked x)) := by
    rw [← hone]
    rfl
  have hfinite := isFinite_of_packed (hdiv ▸ h.isFinite)
  by_cases hx : x.isFinite = true
  · refine ⟨hx, fun hzero => ?_⟩
    obtain ⟨s, hu⟩ | ⟨s, m, e, hc, -, hu⟩ := unpacked_cases hx
    · rw [hu] at hfinite
      cases hfinite
    · rw [rational, hu, ← abs_eq_zero, abs_rationalOf_finite] at hzero
      exact hc.magnitude_pos.ne' hzero
  · rw [isFinite_eq] at hx
    cases hu : unpacked x with
    | zero | finite => exact absurd (congrArg UnpackedFloat.isFinite hu) hx
    | notANumber =>
      rw [hu] at hfinite
      cases hfinite
    | infinity s =>
      have hnone : rational (1 / x) = 0 := by
        rw [hdiv, hu]
        exact congrArg rationalOf (unpack_pack_zero _)
      exact absurd hnone h.ne_zero

theorem toInt_neg_of_ne (hn : n ≠ Int32.minValue) : (-n).toInt = -n.toInt := by
  have hleast : n.toInt ≠ -2 ^ 31 := fun h => hn (Int32.toInt_inj.mp (h.trans Int32.toInt_minValue.symm))
  have hlow := n.le_toInt
  have hhigh := n.toInt_lt
  rw [Int32.toInt_neg]
  exact Int.bmod_eq_of_le (by omega) (by omega)

/-- Powers with opposite exponents are inverse to each other. -/
theorem inverse_intPower (hn : n ≠ Int32.minValue) (h0 : n ≠ 0) (h : Normal (intPower x n)) :
    (intPower x (-n)).isFinite = true ∧
      |rational (intPower x (-n)) * rational (intPower x n) - 1| ≤ 2 / 10 ^ 15 := by
  have hopposite := toInt_neg_of_ne hn
  have hne : n.toInt ≠ 0 := fun h => h0 (Int32.toInt_inj.mp h)
  by_cases hneg : n < 0
  · have hpos : ¬ -n < 0 := by
      rw [Int32.lt_iff_toInt_lt] at hneg ⊢
      change n.toInt < 0 at hneg
      change ¬ (-n).toInt < 0
      omega
    have hpower : intPower x n = 1 / intPower x (-n) := by
      rw [intPower, intPower, if_pos hneg, if_neg hpos, hopposite, Int.natAbs_neg]
    rw [hpower] at h ⊢
    obtain ⟨hfinite, hzero⟩ := h.of_reciprocal
    rw [mul_comm]
    exact ⟨hfinite, inverse_reciprocal hfinite hzero h.isFinite⟩
  · have hneg' : -n < 0 := by
      rw [Int32.lt_iff_toInt_lt] at hneg ⊢
      change ¬ n.toInt < 0 at hneg
      change (-n).toInt < 0
      omega
    have hpower : intPower x (-n) = 1 / intPower x n := by
      rw [intPower, intPower, if_neg hneg, if_pos hneg', hopposite, Int.natAbs_neg]
    rw [hpower]
    exact ⟨h.isFinite_reciprocal, inverse_reciprocal h.isFinite h.ne_zero h.isFinite_reciprocal⟩

/-! Operators. -/

theorem alike_quantities_iff {a b : Quantity} (hexponent : a.exponent = b.exponent)
    (happrox : a.magnitude.isFinite = true → b.magnitude.isFinite = true →
      approxEq a.magnitude (b.inUnit a.unit) = true) :
    Alike (checkFinite (.quantity a)) (checkFinite (.quantity b)) ↔ a.magnitude.isFinite = b.magnitude.isFinite := by
  rcases checkFinite_cases (.quantity a) with ⟨ha, hfinite⟩ | ⟨⟨fault, ha⟩, hinfinite⟩ <;>
    rcases checkFinite_cases (.quantity b) with ⟨hb, hfinite'⟩ | ⟨⟨fault', hb⟩, hinfinite'⟩ <;>
    simp only [Value.numbers, List.mem_singleton, forall_eq, Bool.not_eq_true] at * <;> rw [ha, hb]
  · have hsame : a.sameDimension b = true := beq_iff_eq.mpr hexponent
    rw [hfinite, hfinite', Alike, Value.approxEq?, Quantity.approxEq, hsame, happrox hfinite hfinite']
    simp
  · simp [Alike, hfinite, hinfinite']
  · simp [Alike, hinfinite, hfinite']
  · simp [Alike, hinfinite, hinfinite']

/-- Products fail or not by themselves. If they do not, they are equal. -/
theorem alike_product_iff :
    Alike (BinaryOp.mul.apply (.ratio s u) (.quantity q)) (BinaryOp.mul.apply (.scalar s) (.quantity q)) ↔
      (s * q.inUnit u).isFinite = (q.magnitude * s).isFinite := by
  change Alike (checkFinite (.quantity ⟨s * q.inUnit u, u, 0 + q.exponent⟩)) (checkFinite (.quantity (q.scale s))) ↔ _
  rw [Int32.zero_add]
  exact alike_quantities_iff rfl approxEq_products

theorem alike_quotient_iff (hne : q.exponent ≠ 0) (h : q.Tracks u) :
    Alike (BinaryOp.div.apply (.ratio s u) (.quantity q)) (BinaryOp.div.apply (.scalar s) (.quantity q)) ↔
      (s / q.inUnit u).isFinite = (s / q.magnitude).isFinite := by
  obtain ⟨hm, -⟩ := isFinite_of_mul h.magnitude.isFinite
  have hzero : ∀ {x : Float}, x.isFinite = true → rational x ≠ 0 → (x == 0) = false := fun hx hne =>
    Bool.eq_false_iff.mpr fun h => hne (((beq_iff hx rational_zero.1).mp h).trans rational_zero.2)
  have hratio : BinaryOp.div.apply (.ratio s u) (.quantity q) =
      checkFinite (.quantity ⟨s / q.inUnit u, u, 0 - q.exponent⟩) := by
    rw [BinaryOp.apply, combine, Value.ratio, arithmetic_div, nonZero, hzero h.magnitude.isFinite h.magnitude.ne_zero]
    rfl
  have hscalar : BinaryOp.div.apply (.scalar s) (.quantity q) =
      checkFinite (.quantity ⟨s / q.magnitude, q.unit, -q.exponent⟩) := by
    rw [BinaryOp.apply, combine, arithmetic, nonZero, hzero hm (Normal.left_ne_zero h.magnitude)]
    rfl
  obtain ⟨hopposite, hinverse⟩ := inverse_intPower h.exponent hne h.factor
  rw [hratio, hscalar, Int32.zero_sub]
  exact alike_quantities_iff rfl (approxEq_quotients h.magnitude hopposite hinverse)

/-- A ratio does as a scalar does, on either side of an operator, unless scalars alone are taken. Where something is
brought to the unit of the ratio for that, one of the two may be out of range while the other is not. -/
theorem ratio_for_scalar (op : BinaryOp) (v : Value) (s : Float) (u : LengthUnit) (hv : v.kind ≠ .text) :
    (Alike (op.apply v (.ratio s u)) (op.apply v (.scalar s)) ↔
        ¬ (op.Misses v ∧ (op.apply v (.scalar s)).isOk = true)) ∧
      (¬ op.Converts u v → (Alike (op.apply (.ratio s u) v) (op.apply (.scalar s) v) ↔
        ¬ (op.Misses v ∧ (op.apply (.scalar s) v).isOk = true))) ∧
      ∀ q, v = .quantity q → op.Converts u v →
        (op = .mul → (Alike (op.apply (.ratio s u) v) (op.apply (.scalar s) v) ↔
          (s * q.inUnit u).isFinite = (q.magnitude * s).isFinite)) ∧
        (op = .div → q.Tracks u → (Alike (op.apply (.ratio s u) v) (op.apply (.scalar s) v) ↔
          (s / q.inUnit u).isFinite = (s / q.magnitude).isFinite)) := by
  refine ⟨alike_right_iff hv, fun hconverts => alike_left_iff hconverts hv, ?_⟩
  rintro q rfl ⟨-, q', hq, hne, -⟩
  cases hq
  refine ⟨?_, ?_⟩
  · rintro rfl
    exact alike_product_iff
  · rintro rfl htracks
    exact alike_quotient_iff hne htracks

/-- Twice three centimetres, where two is a ratio of millimetres. -/
theorem ratio_for_scalar_length :
    (Value.quantity (.length 3 .centimetre)).kind ≠ .text ∧
      Alike (BinaryOp.mul.apply (.ratio 2 .millimetre) (.quantity (.length 3 .centimetre)))
        (BinaryOp.mul.apply (.scalar 2) (.quantity (.length 3 .centimetre))) := by
  have hkind : (Value.quantity (.length 3 .centimetre)).kind ≠ .text := by decide
  have hconverts : BinaryOp.mul.Converts .millimetre (.quantity (.length 3 .centimetre)) :=
    ⟨.inl rfl, .length 3 .centimetre, rfl, by decide, by decide⟩
  have hfinite : (2 * (Quantity.length 3 .centimetre).inUnit .millimetre).isFinite = true := by
    rw [Quantity.inUnit, intPower_eq_intPowerIn (k := 1) (by decide)]
    decide +kernel
  have hfinite' : ((Quantity.length 3 .centimetre).magnitude * 2).isFinite = true := by decide +kernel
  obtain ⟨-, -, hconverted⟩ := ratio_for_scalar .mul (.quantity (.length 3 .centimetre)) 2 .millimetre hkind
  exact ⟨hkind, ((hconverted _ rfl hconverts).1 rfl).mpr (hfinite.trans hfinite'.symm)⟩

/-- A point is multiplied by a scalar, and not by a ratio. -/
theorem ratio_not_for_scalar : ¬ ∀ (op : BinaryOp) (v : Value) (s : Float) (u : LengthUnit), v.kind ≠ .text →
    ((op.apply v (.ratio s u)).isOk = true ↔ (op.apply v (.scalar s)).isOk = true) := by
  intro hall
  have hscaled : (BinaryOp.mul.apply (.point (.length 1 .millimetre) (.length 2 .millimetre)) (.scalar 2)).isOk =
      true := by decide +kernel
  have hboth := hall .mul (.point (.length 1 .millimetre) (.length 2 .millimetre)) 2 .millimetre (by decide)
  cases hboth.mpr hscaled

end FormulaGraph
