import FormulaGraph.Proofs.Numerals

/-! How doubles are written in formulas: as numbers so near that nobody can tell. -/

namespace FormulaGraph

variable {x y : Float} {b : Binary} {d : Decimal}

/-- The number that a mantissa and an exponent make. -/
def Binary.value (b : Binary) : ℚ := b.mantissa * 2 ^ b.exponent

theorem Binary.value_ofFloat (hx : x.isFinite = true) : (Binary.ofFloat x).value = |rational x| := by
  have hfields : |rational x| = |fieldsValue .positive (x.toBits.toNat / 2 ^ 52 % 2 ^ 11)
      (x.toBits.toNat % 2 ^ 52)| := by
    rw [rational_eq_fields hx, fieldsValue, fieldsValue, abs_withSign, abs_withSign]
  rw [hfields, value, Binary.ofFloat]
  simp only [Nat.shiftRight_eq_div_pow, Nat.shiftLeft_eq, Nat.one_mul]
  split
  next hzero =>
    rw [hzero, fieldsValue, withSign, if_pos rfl, abs_of_nonneg (mul_nonneg (Nat.cast_nonneg _) (zpow_two_pos _).le)]
  next hne =>
    rw [fieldsValue, withSign, if_neg hne, abs_of_nonneg (mul_nonneg (Nat.cast_nonneg _) (zpow_two_pos _).le)]

theorem isNegative_iff (hx : x.isFinite = true) (hne : rational x ≠ 0) :
    isNegative x = true ↔ rational x < 0 := by
  rw [isNegative, decide_eq_true_eq, Nat.shiftLeft_eq, Nat.one_mul]
  have hfields := rational_eq_fields hx
  have hnonneg : ∀ field fraction : ℕ, 0 ≤ fieldsValue .positive field fraction := fun field fraction => by
    have := zpow_two_pos (-1074)
    have := zpow_two_pos (field - 1075)
    rw [fieldsValue, withSign]
    split <;> positivity
  have hopposite : ∀ field fraction : ℕ, fieldsValue .negative field fraction =
      -fieldsValue .positive field fraction := fun _ _ => rfl
  constructor
  · intro hge
    rw [if_neg (not_lt.mpr hge), hopposite] at hfields
    refine lt_of_le_of_ne ?_ hne
    rw [hfields]
    exact neg_nonpos.mpr (hnonneg _ _)
  · intro hlt
    by_contra hge
    rw [if_pos (not_le.mp hge)] at hfields
    exact (hfields ▸ hnonneg _ _).not_gt hlt

theorem rational_larger (hx : x.isFinite = true) (hy : y.isFinite = true) :
    (larger x y).isFinite = true ∧ rational (larger x y) = max (rational x) (rational y) := by
  have hxn := isNaN_of_isFinite hx
  have hyn := isNaN_of_isFinite hy
  rw [larger, hxn, hyn]
  simp only [Bool.false_eq_true, if_false, lt_iff hx hy]
  split
  next hlt => exact ⟨hy, (max_eq_right hlt.le).symm⟩
  next hge => exact ⟨hx, (max_eq_left (not_lt.mp hge)).symm⟩

/-- A small part of a number, as the literal `1e-k` times it makes it. -/
theorem scaled_bounds {k : ℕ} (hk : 1 ≤ k) (hk' : k ≤ 20) (hy : y.isFinite = true) (hone : 1 ≤ rational y) :
    (Float.ofScientific 1 true k * y).isFinite = true ∧
      98 / 100 * (rational y / 10 ^ k) ≤ rational (Float.ofScientific 1 true k * y) ∧
      rational (Float.ofScientific 1 true k * y) ≤ 102 / 100 * (rational y / 10 ^ k) := by
  have hliteral := rounds_ofScientific' 1 true k
  rw [if_pos rfl, Nat.cast_one, one_mul, zpow_neg, zpow_natCast, inv_eq_one_div] at hliteral
  have hpow : (10 : ℚ) ≤ 10 ^ k := le_self_pow₀ (by norm_num) (by omega)
  have hpow' : (10 : ℚ) ^ k ≤ 10 ^ 20 := pow_le_pow_right₀ (by norm_num) hk'
  have hpart : (1 : ℚ) / 10 ^ k ≤ 1 / 10 := one_div_le_one_div_of_le (by norm_num) hpow
  have hpart' : (1 : ℚ) / 10 ^ 20 ≤ 1 / 10 ^ k := one_div_le_one_div_of_le (by positivity) hpow'
  have hleast := least_le
  rw [div_eq_mul_one_div (rational y)]
  generalize (1 : ℚ) / 10 ^ k = part at *
  have hpart_pos : 0 < part := lt_of_lt_of_le (by norm_num) hpart'
  have hc : (Float.ofScientific 1 true k).isFinite = true := hliteral.finite (by
    rw [abs_of_pos hpart_pos]
    linarith [one_le_greatest])
  have hnear := hliteral.near hc
  rw [abs_of_pos hpart_pos, abs_le] at hnear
  have hlow : 99 / 100 * part ≤ rational (Float.ofScientific 1 true k) := by linarith
  have hhigh : rational (Float.ofScientific 1 true k) ≤ 101 / 100 * part := by linarith
  have hproduct := rounds_mul hc hy
  generalize rational (Float.ofScientific 1 true k) = c at *
  have hy0 : 0 ≤ rational y := by linarith
  have hlow' := mul_le_mul_of_nonneg_right hlow hy0
  have hhigh' := mul_le_mul_of_nonneg_right hhigh hy0
  have hwhole := mul_le_mul_of_nonneg_left hone hpart_pos.le
  have hnonneg : 0 ≤ c * rational y := mul_nonneg (by linarith) hy0
  have hgreatest := abs_rational_le hy
  rw [abs_of_nonneg hy0] at hgreatest
  have hfinite := hproduct.finite (by
    have hle := mul_le_mul_of_nonneg_right (show c ≤ 1 by linarith) hy0
    rw [abs_of_nonneg hnonneg]
    linarith)
  have hnear' := hproduct.near hfinite
  rw [abs_of_nonneg hnonneg, abs_le] at hnear'
  exact ⟨hfinite, by linarith, by linarith⟩

/-! The shortest decimal. -/

theorem Binary.inUnits_eq (b : Binary) (k : ℤ) :
    0 < (b.inUnits k).2 ∧ ((b.inUnits k).1 : ℚ) / (b.inUnits k).2 = b.value / 10 ^ k := by
  have hsplit : ∀ (a : ℚ) (n : ℤ), a ≠ 0 → a ^ n = a ^ n.toNat / a ^ (-n).toNat := fun a n ha => by
    rw [← zpow_natCast, ← zpow_natCast, ← zpow_sub₀ ha]
    congr 1
    omega
  have htop : (b.inUnits k).1 = b.mantissa * 2 ^ b.exponent.toNat * 10 ^ (-k).toNat := by
    rw [← Nat.shiftLeft_eq]
    rfl
  have hbottom : (b.inUnits k).2 = 2 ^ (-b.exponent).toNat * 10 ^ k.toNat := by
    rw [← Nat.one_mul (2 ^ _), ← Nat.shiftLeft_eq]
    rfl
  refine ⟨hbottom ▸ by positivity, ?_⟩
  rw [htop, hbottom, value, hsplit 2 b.exponent two_ne_zero, hsplit 10 k (by norm_num)]
  push_cast
  field_simp

/-- Whole units up to a number. -/
theorem Binary.floor_bounds (b : Binary) (k : ℤ) :
    Decimal.value ⟨(b.inUnits k).1 / (b.inUnits k).2, k⟩ ≤ b.value ∧
      b.value < Decimal.value ⟨(b.inUnits k).1 / (b.inUnits k).2, k⟩ + 10 ^ k := by
  obtain ⟨hbottom, hvalue⟩ := b.inUnits_eq k
  have hk := ten_zpow_pos k
  have hpos : (0 : ℚ) < (b.inUnits k).2 := by exact_mod_cast hbottom
  rw [eq_div_iff hk.ne'] at hvalue
  rw [← hvalue, Decimal.value, ← add_one_mul]
  refine ⟨mul_le_mul_of_nonneg_right Nat.cast_div_le hk.le, mul_lt_mul_of_pos_right ?_ hk⟩
  rw [div_lt_iff₀ hpos, mul_comm]
  exact_mod_cast Nat.lt_mul_div_succ _ hbottom

theorem nearestOn?_reads {k : ℤ} (h : nearestOn? x b k = some d) : (d.toFloat == x) = true := by
  rw [nearestOn?] at h
  simp only at h
  split at h
  next hbelow habove =>
    split at h <;> cases h
    · exact hbelow
    · exact habove
  next hbelow habove =>
    cases h
    exact hbelow
  next hbelow habove =>
    cases h
    exact habove
  next => cases h

/-- Either the decimal reads back, or it is exact up to a unit of the last one tried. -/
theorem shortestFrom_cases (x : Float) (b : Binary) (tries : ℕ) (k : ℤ) :
    ((shortestFrom x b tries k).toFloat == x) = true ∨
      (shortestFrom x b tries k).value ≤ b.value ∧
        b.value < (shortestFrom x b tries k).value + 10 ^ (k - tries) := by
  induction tries generalizing k with
  | zero =>
    rw [Nat.cast_zero, sub_zero]
    exact .inr (b.floor_bounds k)
  | succ tries ih =>
    rw [shortestFrom]
    cases hnearest : nearestOn? x b k with
    | none =>
      have hstep : k - 1 - (tries : ℤ) = k - (tries + 1 : ℕ) := by omega
      have h := ih (k - 1)
      rwa [hstep] at h
    | some d => exact .inl (nearestOn?_reads hnearest)

/-- The first unit tried is less than ten times the number. -/
theorem Binary.leading_le (b : Binary) (hpos : 0 < b.mantissa) : (10 : ℚ) ^ (b.leading - 1) ≤ b.value := by
  obtain ⟨hbottom, hvalue⟩ := b.inUnits_eq 0
  rw [zpow_zero, div_one] at hvalue
  have htop : 0 < (b.inUnits 0).1 := Nat.pos_of_ne_zero fun hzero => by
    have hvalue_pos : 0 < b.value := mul_pos (by exact_mod_cast hpos) (zpow_two_pos _)
    rw [← hvalue, hzero, Nat.cast_zero, zero_div] at hvalue_pos
    exact lt_irrefl _ hvalue_pos
  rw [← hvalue, leading]
  simp only
  generalize (b.inUnits 0).1 = top at *
  generalize (b.inUnits 0).2 = bottom at *
  have hpos : (0 : ℚ) < bottom := by exact_mod_cast hbottom
  split
  next hlt =>
    have hne : bottom / top ≠ 0 := (Nat.div_pos hlt.le htop).ne'
    obtain ⟨-, hhigh⟩ := digits_bounds hne
    have hle : bottom ≤ top * 10 ^ (Nat.toDigits 10 (bottom / top)).length :=
      (Nat.lt_mul_div_succ bottom htop).le.trans (Nat.mul_le_mul_left top hhigh)
    rw [sub_sub_cancel_left, zpow_neg, zpow_natCast, inv_eq_one_div,
      div_le_div_iff₀ (by positivity) hpos, one_mul]
    exact_mod_cast hle
  next hge =>
    have hne : top / bottom ≠ 0 := (Nat.div_pos (not_lt.mp hge) hbottom).ne'
    have hlength : 0 < (Nat.toDigits 10 (top / bottom)).length := Nat.length_toDigits_pos
    obtain ⟨hlow, -⟩ := digits_bounds hne
    refine le_trans ?_ (Nat.cast_div_le (m := top) (n := bottom))
    rw [← Nat.cast_pred hlength, zpow_natCast]
    exact_mod_cast hlow

/-! Tolerance and noise. -/

/-- `y` is `x` up to one part in `10 ^ k`, or up to as little in all where `x` is small. -/
structure Near (k : ℕ) (x y : Float) : Prop where
  isFinite : y.isFinite = true
  le : |rational x - rational y| ≤ max |rational x| 1 / 10 ^ k

theorem Near.mono {k k' : ℕ} (h : Near k x y) (hk : k' ≤ k) : Near k' x y := by
  refine ⟨h.isFinite, h.le.trans (div_le_div_of_nonneg_left ?_ (by positivity) ?_)⟩
  · exact zero_le_one.trans (le_max_right _ _)
  · exact pow_le_pow_right₀ (by norm_num) hk

theorem Near.congr {k : ℕ} {y' : Float} (h : Near k x y) (hy : y'.isFinite = true ∧ rational y' = rational y) :
    Near k x y' :=
  ⟨hy.1, hy.2.symm ▸ h.le⟩

section

variable (hx : x.isFinite = true) (hy : y.isFinite = true)
include hx hy

/-- The tolerance for two numbers, up to what rounding makes of it. -/
theorem tolerance_bounds :
    (1e-9 * larger (larger x.abs y.abs) 1).isFinite = true ∧
      98 / 100 * (max (max |rational x| |rational y|) 1 / 10 ^ 9) ≤ rational (1e-9 * larger (larger x.abs y.abs) 1) ∧
      rational (1e-9 * larger (larger x.abs y.abs) 1) ≤
        102 / 100 * (max (max |rational x| |rational y|) 1 / 10 ^ 9) := by
  obtain ⟨hxa, hxv⟩ := rational_abs hx
  obtain ⟨hya, hyv⟩ := rational_abs hy
  obtain ⟨hxy, hxyv⟩ := rational_larger hxa hya
  obtain ⟨hl, hlv⟩ := rational_larger hxy rational_one.1
  rw [hxyv, hxv, hyv, rational_one.2] at hlv
  rw [← hlv]
  exact scaled_bounds (k := 9) (by decide) (by decide) hl (hlv ▸ le_max_right _ _)

theorem approxEq_of_le
    (h : |rational x - rational y| ≤ 97 / 100 * (max (max |rational x| |rational y|) 1 / 10 ^ 9)) :
    approxEq x y = true := by
  obtain ⟨hbound, hlow, -⟩ := tolerance_bounds hx hy
  have hlarge : max (max |rational x| |rational y|) 1 ≤ greatest :=
    max_le (max_le (abs_rational_le hx) (abs_rational_le hy)) one_le_greatest
  have hone := le_max_right (max |rational x| |rational y|) 1
  have hdifference := rounds_sub hx hy
  have hfinite := hdifference.finite (by linarith)
  have hnear := hdifference.near hfinite
  have htriangle := abs_add_le (rational (x - y) - (rational x - rational y)) (rational x - rational y)
  rw [sub_add_cancel] at htriangle
  have hleast := least_le
  obtain ⟨ha, hav⟩ := rational_abs hfinite
  have hsmall : rational (x - y).abs ≤ rational (1e-9 * larger (larger x.abs y.abs) 1) := by
    rw [hav]
    linarith
  exact decide_eq_true ((le_iff ha hbound).mpr hsmall)

theorem le_of_approxEq (h : approxEq x y = true) :
    |rational x - rational y| ≤ 103 / 100 * (max (max |rational x| |rational y|) 1 / 10 ^ 9) := by
  obtain ⟨hbound, -, hhigh⟩ := tolerance_bounds hx hy
  have hone := le_max_right (max |rational x| |rational y|) 1
  have hle := of_decide_eq_true h
  have hfinite := isFinite_of_le hle hbound
  obtain ⟨ha, hav⟩ := rational_abs hfinite
  have hsmall := (le_iff ha hbound).mp hle
  rw [hav] at hsmall
  have hnear := (rounds_sub hx hy).near hfinite
  have htriangle := abs_sub_abs_le_abs_sub (rational x - rational y) (rational (x - y))
  rw [abs_sub_comm (rational x - rational y)] at htriangle
  have hleast := least_le
  linarith

end

theorem approxEq_of_near (hx : x.isFinite = true) (h : Near 10 x y) : approxEq x y = true := by
  refine approxEq_of_le hx h.isFinite (h.le.trans ?_)
  have hmax : max |rational x| 1 ≤ max (max |rational x| |rational y|) 1 := max_le_max_right 1 (le_max_left _ _)
  linarith [le_max_right |rational x| 1]

theorem withoutNoise_near (hx : x.isFinite = true) :
    (withoutNoise x).isFinite = true ∧
      |rational x - rational (withoutNoise x)| ≤ 103 / 100 * (max |rational x| 1 / 10 ^ 12) := by
  obtain ⟨hxa, hxv⟩ := rational_abs hx
  obtain ⟨hl, hlv⟩ := rational_larger hxa rational_one.1
  rw [hxv, rational_one.2] at hlv
  have hone : 1 ≤ rational (larger x.abs 1) := hlv ▸ le_max_right _ _
  obtain ⟨hbound, -, hhigh⟩ := scaled_bounds (k := 12) (by decide) (by decide) hl hone
  rw [hlv] at hone hhigh
  rw [withoutNoise]
  generalize roundAway (x * 1e9) / 1e9 = rounded
  split
  next hlt =>
    have hfinite := isFinite_of_lt hlt hbound
    have hrounded := isFinite_of_sub hfinite hx
    obtain ⟨ha, hav⟩ := rational_abs hfinite
    have hsmall := (lt_iff ha hbound).mp hlt
    have hdifference := (rounds_sub hrounded hx).near hfinite
    have htriangle := abs_sub_abs_le_abs_sub (rational rounded - rational x) (rational (rounded - x))
    rw [hav] at hsmall
    rw [abs_sub_comm (rational rounded - rational x) (rational (rounded - x))] at htriangle
    have hleast := least_le
    refine ⟨hrounded, ?_⟩
    rw [abs_sub_comm]
    linarith
  next =>
    rw [sub_self, abs_zero]
    exact ⟨hx, by positivity⟩

/-! What is written. -/

theorem shortest_reads (hx : x.isFinite = true) (hpos : 0 < rational x) :
    ∃ w, readNumber? (shortest x).text = some w ∧ w.isFinite = true ∧
      |rational x - rational w| ≤ rational x / 10 ^ 15 + 1 / 10 ^ 30 := by
  obtain ⟨d, hd⟩ : ∃ d, d = shortest x := ⟨_, rfl⟩
  obtain ⟨hnumeral, d', hread, hvalue⟩ := d.readPlain?_text
  have hw := hvalue ▸ d'.rounds_toFloat
  rw [← hd]
  refine ⟨d'.toFloat, by rw [hnumeral.readNumber?, hread]; rfl, ?_⟩
  have hb : (Binary.ofFloat x).value = rational x := by rw [Binary.value_ofFloat hx, abs_of_pos hpos]
  have hcases := shortestFrom_cases x (Binary.ofFloat x) 20 (Binary.ofFloat x).leading
  rw [← shortest.eq_def, ← hd, hb] at hcases
  rcases hcases with heq | ⟨hlow, hhigh⟩
  · have hfinite := isFinite_of_beq heq hx
    obtain ⟨hw, hvalue⟩ := d.rounds_toFloat.congr hw hfinite
    refine ⟨hw, ?_⟩
    rw [hvalue, (beq_iff hfinite hx).mp heq, sub_self, abs_zero]
    positivity
  · have hmantissa : 0 < (Binary.ofFloat x).mantissa := Nat.pos_of_ne_zero fun hzero => by
      rw [← hb, Binary.value, hzero, Nat.cast_zero, zero_mul] at hpos
      exact lt_irrefl _ hpos
    have hunit : (10 : ℚ) ^ ((Binary.ofFloat x).leading - (20 : ℕ)) ≤ rational x / 10 ^ 19 := by
      have hleading := hb ▸ (Binary.ofFloat x).leading_le hmantissa
      have hsplit : (Binary.ofFloat x).leading - (20 : ℕ) = (Binary.ofFloat x).leading - 1 - (19 : ℕ) := by
        push_cast
        ring
      rw [hsplit, zpow_sub₀ (by norm_num), zpow_natCast]
      exact div_le_div_of_nonneg_right hleading (by positivity)
    generalize (10 : ℚ) ^ ((Binary.ofFloat x).leading - (20 : ℕ)) = unit at *
    have hnonneg := d.value_nonneg
    have hgreatest := abs_rational_le hx
    rw [abs_of_pos hpos] at hgreatest
    have hfinite := hw.finite (by
      rw [abs_of_nonneg hnonneg]
      exact hlow.trans hgreatest)
    have hnear := hw.near hfinite
    have hleast := least_le
    rw [abs_of_nonneg hnonneg, abs_le] at hnear
    refine ⟨hfinite, ?_⟩
    rw [abs_le]
    constructor <;> linarith

theorem numberText_eq (hx : x.isFinite = true) (hne : rational x ≠ 0) :
    numberText x = String.ofList (signed (decide (rational x < 0)) (shortest x.abs).text) := by
  obtain ⟨hnumber, hbounded⟩ := isFinite_iff.mp hx
  have hzero : (x == 0) = false := Bool.eq_false_iff.mpr fun h =>
    hne (((beq_iff hx rational_zero.1).mp h).trans rational_zero.2)
  have hsign : isNegative x = decide (rational x < 0) := by
    rw [Bool.eq_iff_iff, isNegative_iff hx hne, decide_eq_true_eq]
  rw [numberText, hnumber, hbounded, hzero, hsign]
  rfl

/-- The text of a number in a formula: a numeral, with a sign before it or without. -/
theorem formatNumber_reads (hx : x.isFinite = true) :
    ∃ (negative : Bool) (l : List Char) (w : Float), formatNumber x = String.ofList (signed negative l) ∧
      Numeral l ∧ readNumber? l = some w ∧ w.isFinite = true ∧
        Near 11 x (if negative then -w else w) := by
  obtain ⟨hy, hnoise⟩ := withoutNoise_near hx
  rw [formatNumber]
  generalize withoutNoise x = y at *
  split
  next hzero =>
    have hzero := ((beq_iff hy rational_zero.1).mp hzero).trans rational_zero.2
    have hnumeral : Numeral ['0'] := numeral_zeros rfl 0
    refine ⟨false, ['0'], 0, rfl, hnumeral, hnumeral.readNumber?, rational_zero.1, rational_zero.1, ?_⟩
    rw [hzero] at hnoise
    rw [if_neg Bool.false_ne_true, rational_zero.2]
    linarith [le_max_right |rational x| 1]
  next hne =>
    have hne : rational y ≠ 0 := fun h =>
      hne ((beq_iff hy rational_zero.1).mpr (h.trans rational_zero.2.symm))
    obtain ⟨ha, hav⟩ := rational_abs hy
    obtain ⟨w, hread, hw, hnear⟩ := shortest_reads ha (by rw [hav]; exact abs_pos.mpr hne)
    rw [hav] at hnear
    obtain ⟨hn, hnv⟩ := rational_neg hw
    refine ⟨_, _, w, numberText_eq hy hne, (Decimal.readPlain?_text _).1, hread, hw, ?_, ?_⟩
    · split
      · exact hn
      · exact hw
    have hsign : |rational y - rational (if decide (rational y < 0) = true then -w else w)| =
        |(|rational y| - rational w)| := by
      simp only [decide_eq_true_eq]
      split
      next hneg =>
        rw [hnv, abs_of_neg hneg, ← abs_neg]
        ring_nf
      next hnonneg => rw [abs_of_nonneg (not_lt.mp hnonneg)]
    have htriangle := abs_sub_le (rational x) (rational y)
      (rational (if decide (rational y < 0) = true then -w else w))
    have htriangle' := abs_sub_abs_le_abs_sub (rational y) (rational x)
    rw [abs_sub_comm (rational y)] at htriangle'
    rw [hsign] at htriangle
    linarith [le_max_right |rational x| 1, le_max_left |rational x| 1]

/-! Degrees. -/

theorem rational_degreesPerRadian :
    (57.29577951308232 : Float).isFinite = true ∧
      rational 57.29577951308232 = 8063664102031864 / 2 ^ 47 := by
  have h : unpacked 57.29577951308232 = .finite .positive 8063664102031864 (-47) (by decide) := rfl
  refine ⟨rfl, ?_⟩
  rw [rational, h, rationalOf, withSign]
  norm_num

theorem rational_radiansPerDegree :
    (circleRatio / 180).isFinite = true ∧ rational (circleRatio / 180) = 5030569068109113 / 2 ^ 58 := by
  have h : unpacked (circleRatio / 180) = .finite .positive 5030569068109113 (-58) (by decide) := rfl
  refine ⟨rfl, ?_⟩
  rw [rational, h, rationalOf, withSign]
  norm_num

/-- Little is lost between radians and degrees. -/
theorem near_toRadians (hx : x.isFinite = true) (hd : (toDegrees x).isFinite = true)
    (h : Near 11 (toDegrees x) y) : Near 10 x (toRadians y) := by
  obtain ⟨hc, hcv⟩ := rational_degreesPerRadian
  obtain ⟨hc', hcv'⟩ := rational_radiansPerDegree
  have hdegrees := (rounds_mul hx hc).near hd
  have hradians := rounds_mul h.isFinite hc'
  have hle := h.le
  have hleast := least_le
  have hone := one_le_greatest
  change |rational (toDegrees x) - _| ≤ _ at hdegrees
  rw [hcv, abs_mul] at hdegrees
  rw [hcv'] at hradians
  rw [abs_of_nonneg (show (0 : ℚ) ≤ 8063664102031864 / 2 ^ 47 by norm_num)] at hdegrees
  have hgreatest := abs_rational_le hd
  have hmax := le_max_left |rational x| 1
  have hmax' := le_max_right |rational x| 1
  have hsize : |rational (toDegrees x)| ≤ 58 * max |rational x| 1 := by
    have htriangle := abs_sub_abs_le_abs_sub (rational (toDegrees x)) (rational x * (8063664102031864 / 2 ^ 47))
    rw [abs_mul, abs_of_nonneg (show (0 : ℚ) ≤ 8063664102031864 / 2 ^ 47 by norm_num)] at htriangle
    linarith
  have hsize' : max |rational (toDegrees x)| 1 ≤ 58 * max |rational x| 1 := max_le hsize (by linarith)
  have hclose := abs_sub_abs_le_abs_sub (rational y) (rational (toDegrees x))
  rw [abs_sub_comm] at hclose
  have hfinite := hradians.finite (by
    have : max |rational (toDegrees x)| 1 ≤ greatest := max_le hgreatest hone
    rw [abs_mul, abs_of_nonneg (show (0 : ℚ) ≤ 5030569068109113 / 2 ^ 58 by norm_num)]
    linarith)
  have hnear := hradians.near hfinite
  rw [abs_mul, abs_of_nonneg (show (0 : ℚ) ≤ 5030569068109113 / 2 ^ 58 by norm_num)] at hnear
  change |rational (toRadians y) - _| ≤ _ at hnear
  have hsize'' : |rational y| ≤ 59 * max |rational x| 1 := by linarith
  have hbound : |rational x - rational (toRadians y)| ≤ 2 / 10 ^ 11 * max |rational x| 1 := by
    rw [abs_le] at hdegrees hle hnear ⊢
    have hx := abs_le.mp (le_refl |rational x|)
    constructor <;> linarith
  exact ⟨hfinite, hbound.trans (by linarith)⟩

/-- The sign of degrees is that of the radians. -/
theorem toRadians_neg (hx : x.isFinite = true) (h : (toRadians (-x)).isFinite = true) :
    (toRadians x).isFinite = true ∧ rational (toRadians (-x)) = -rational (toRadians x) := by
  obtain ⟨hc, -⟩ := rational_radiansPerDegree
  obtain ⟨hn, hnv⟩ := rational_neg hx
  have hrounds := rounds_mul hx hc
  have hrounds' := rounds_mul hn hc
  rw [hnv, neg_mul] at hrounds'
  change Rounds _ (toRadians x) at hrounds
  change Rounds _ (toRadians (-x)) at hrounds'
  have hlt := hrounds'.isFinite_iff.mp h
  rw [nearest_neg, abs_neg] at hlt
  have hfinite := hrounds.isFinite_iff.mpr hlt
  exact ⟨hfinite, by rw [hrounds'.value h, hrounds.value hfinite, nearest_neg]⟩

/-! Ranges. -/

theorem clamp_bounds (hx : x.isNaN = false) :
    (clamp x 0 1).isFinite = true ∧ 0 ≤ rational (clamp x 0 1) ∧ rational (clamp x 0 1) ≤ 1 := by
  obtain ⟨hzero, hzv⟩ := rational_zero
  obtain ⟨hone, hov⟩ := rational_one
  rw [clamp]
  split
  next => exact ⟨hzero, hzv.ge, hzv.trans_le zero_le_one⟩
  next hlow =>
  split
  next => exact ⟨hone, zero_le_one.trans hov.ge, hov.le⟩
  next hhigh =>
  have hfinite : x.isFinite = true := by
    rw [lt_iff_compare] at hlow hhigh
    change (unpacked x).isNaN = false at hx
    rw [isFinite_eq]
    cases hu : unpacked x with
    | zero | finite => rfl
    | notANumber =>
      rw [hu] at hx
      cases hx
    | infinity s =>
      rw [hu] at hlow hhigh
      cases s
      · exact absurd rfl hlow
      · exact absurd rfl hhigh
  rw [lt_iff hfinite hzero, hzv, not_lt] at hlow
  rw [lt_iff hone hfinite, hov, not_lt] at hhigh
  exact ⟨hfinite, hlow, hhigh⟩

theorem near_clamp {k : ℕ} (h0 : 0 ≤ rational x) (h1 : rational x ≤ 1) (h : Near k x y) :
    Near k x (clamp y 0 1) := by
  obtain ⟨hzero, hzv⟩ := rational_zero
  obtain ⟨hone, hov⟩ := rational_one
  have hle := h.le
  rw [clamp]
  split
  next hlow =>
    have hlow := hzv ▸ (lt_iff h.isFinite hzero).mp hlow
    refine ⟨hzero, le_trans ?_ hle⟩
    rw [hzv, abs_of_nonneg (by linarith), abs_of_nonneg (by linarith)]
    linarith
  split
  next hhigh =>
    have hhigh := hov ▸ (lt_iff hone h.isFinite).mp hhigh
    refine ⟨hone, le_trans ?_ hle⟩
    rw [hov, abs_of_nonpos (by linarith), abs_of_nonpos (by linarith)]
    linarith
  next => exact h

/-! Factors of one. -/

theorem powerFrom_one (n : ℕ) : powerFrom 1 1 n = 1 := by
  have hone : (1 : Float) * 1 = 1 := by decide
  induction n using Nat.strongRecOn with
  | ind n ih =>
    rw [powerFrom]
    simp only [hone, ite_self]
    split
    · rfl
    next hne => exact ih (n / 2) (by omega)

theorem intPower_one (n : Int32) : intPower 1 n = 1 := by
  have hone : (1 : Float) / 1 = 1 := by decide
  rw [intPower, powerFrom_one]
  simp only [hone, ite_self]

theorem LengthUnit.millimetres_div_self (u : LengthUnit) : u.millimetres / u.millimetres = 1 := by
  cases u <;> decide

theorem inUnit_self (q : Quantity) : q.inUnit q.unit = q.magnitude * 1 := by
  rw [Quantity.inUnit, LengthUnit.millimetres_div_self, intPower_one]

end FormulaGraph
