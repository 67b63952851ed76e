import Mathlib

/-! How doubles are rounded: to the nearest of those with a full mantissa, or with the least exponent where
that leaves no room for one. -/

namespace FormulaGraph

open Float.Model (Format totalExponent UnpackedFloat)
open Float.Model.UnpackedFloat

/-- The bits behind the mantissa say where `x` lies above it. -/
def Locates (em : ExtendedMantissa) (x : ℚ) : Prop :=
  match em.roundBit, em.stickyBit with
  | false, false => x = em.mantissa
  | false, true => em.mantissa < x ∧ x < em.mantissa + 1 / 2
  | true, false => x = em.mantissa + 1 / 2
  | true, true => em.mantissa + 1 / 2 < x ∧ x < em.mantissa + 1

variable {em : ExtendedMantissa} {acc : Accuracy} {x q : ℚ} {m n : ℕ} {e : ℤ} {s : Sign}

theorem mantissa_ofMantissaAndAccuracy (m : ℕ) (acc : Accuracy) :
    (ExtendedMantissa.ofMantissaAndAccuracy m acc).mantissa = m := by
  rcases acc with _ | order
  · rfl
  · cases order <;> rfl

theorem locates_exact (m : ℕ) : Locates (.ofMantissaAndAccuracy m .exact) m := rfl

theorem Locates.bounds (h : Locates em x) : em.mantissa ≤ x ∧ x < em.mantissa + 1 := by
  obtain ⟨m, round, sticky⟩ := em
  cases round <;> cases sticky <;> simp only [Locates] at h <;> constructor <;> linarith

theorem Locates.shiftRightOne (h : Locates em x) : Locates em.shiftRightOne (x / 2) := by
  obtain ⟨m, round, sticky⟩ := em
  obtain ⟨k, rfl | rfl⟩ := m.even_or_odd'
  · have hshift : ExtendedMantissa.shiftRightOne ⟨2 * k, round, sticky⟩ = ⟨k, false, round || sticky⟩ := by
      simp [ExtendedMantissa.shiftRightOne]
    rw [hshift]
    cases round <;> cases sticky <;> simp only [Locates, Bool.or_self, Bool.or_true, Bool.or_false] at h ⊢ <;>
      push_cast at h <;> first | linarith | constructor <;> linarith
  · have hshift : ExtendedMantissa.shiftRightOne ⟨2 * k + 1, round, sticky⟩ = ⟨k, true, round || sticky⟩ := by
      have hhalf : (2 * k + 1) / 2 = k := by omega
      simp [ExtendedMantissa.shiftRightOne, hhalf]
    rw [hshift]
    cases round <;> cases sticky <;> simp only [Locates, Bool.or_self, Bool.or_true, Bool.or_false] at h ⊢ <;>
      push_cast at h <;> first | linarith | constructor <;> linarith

theorem Locates.shiftRight (h : Locates em x) (k : ℕ) : Locates (em >>> k) (x / 2 ^ k) := by
  change Locates (k.repeat ExtendedMantissa.shiftRightOne em) _
  induction k with
  | zero => simpa [Nat.repeat] using h
  | succ k ih =>
    rw [pow_succ, ← div_div]
    exact ih.shiftRightOne

/-- The whole number nearest to `y`, the even one in the middle between two. -/
def halfEven (y : ℚ) : ℕ :=
  if y < ⌊y⌋₊ + 1 / 2 then ⌊y⌋₊ else if ⌊y⌋₊ + 1 / 2 < y then ⌊y⌋₊ + 1 else ⌊y⌋₊ + ⌊y⌋₊ % 2

theorem Locates.floor_eq (h : Locates em x) : ⌊x⌋₊ = em.mantissa := by
  obtain ⟨hlow, hhigh⟩ := h.bounds
  exact (Nat.floor_eq_iff (em.mantissa.cast_nonneg.trans hlow)).mpr ⟨hlow, hhigh⟩

theorem Locates.roundedMantissa_eq (h : Locates em x) : em.roundedMantissa = halfEven x := by
  rw [halfEven, h.floor_eq]
  obtain ⟨m, round, sticky⟩ := em
  cases round <;> cases sticky <;> simp only [Locates] at h
  · rw [if_pos (by linarith)]
    rfl
  · rw [if_pos h.2]
    rfl
  · rw [if_neg h.ge.not_gt, if_neg h.le.not_gt]
    rfl
  · rw [if_neg h.1.le.not_gt, if_pos h.1]
    rfl

theorem halfEven_natCast (n : ℕ) : halfEven n = n := by
  rw [halfEven, Nat.floor_natCast, if_pos (by linarith)]

theorem halfEven_bounds (y : ℚ) : ⌊y⌋₊ ≤ halfEven y ∧ halfEven y ≤ ⌊y⌋₊ + 1 := by
  rw [halfEven]
  split
  · omega
  · split <;> omega

theorem halfEven_near (hx : 0 ≤ x) : |(halfEven x : ℚ) - x| ≤ 1 / 2 := by
  have hlow := Nat.floor_le hx
  have hhigh := Nat.lt_floor_add_one x
  have hmod : ⌊x⌋₊ % 2 = 0 ∨ ⌊x⌋₊ % 2 = 1 := by omega
  rw [halfEven, abs_le]
  split
  · constructor <;> linarith
  split
  · push_cast
    constructor <;> linarith
  · rcases hmod with hmod | hmod <;> rw [hmod] <;> push_cast <;> constructor <;> linarith

/-! Places of the binary point. -/

/-- A mantissa and an exponent as doubles have them. -/
structure Canonical (m : ℕ) (e : ℤ) : Prop where
  pos : 0 < m
  lt : m < 2 ^ 53
  least_le : -1074 ≤ e
  full : e = -1074 ∨ 2 ^ 52 ≤ m

/-- The exponent of the last place that there is room for. -/
def lastPlace (m : ℕ) (e : ℤ) : ℤ := max (m.log2 + e - 52) (-1074)

theorem targetExponent_eq (m : ℕ) (e : ℤ) :
    Format.binary64.targetExponent (totalExponent m e) = lastPlace m e := by
  simp only [Format.targetExponent, totalExponent, Format.mantissaBits, Format.minExponent, lastPlace]
  omega

theorem shiftToTargetExponent_eq (m : ℕ) (he : e ≤ lastPlace m e) (acc : Accuracy) :
    shiftToTargetExponent .binary64 m e acc =
      (ExtendedMantissa.ofMantissaAndAccuracy m acc >>> (lastPlace m e - e).toNat, lastPlace m e) := by
  rw [shiftToTargetExponent, targetExponent_eq, shiftToExponent]
  congr 1
  omega

theorem shiftToTargetExponent_of_le (m : ℕ) (he : lastPlace m e ≤ e) :
    shiftToTargetExponent .binary64 m e .exact = (.ofMantissaAndAccuracy m .exact, e) := by
  rw [shiftToTargetExponent, targetExponent_eq, shiftToExponent, Int.toNat_of_nonpos (by omega)]
  congr 1
  omega

/-- The three things that rounding can come to. -/
theorem roundWithAccuracy_cases (s : Sign) (acc : Accuracy) (he : e ≤ lastPlace m e)
    (hem : em = ExtendedMantissa.ofMantissaAndAccuracy m acc >>> (lastPlace m e - e).toNat)
    (hle : em.roundedMantissa ≤ 2 ^ 53) :
    (em.roundedMantissa = 0 ∧ roundWithAccuracy .binary64 s m e acc = .zero s) ∨
      (em.roundedMantissa < 2 ^ 53 ∧ ∃ hpos, roundWithAccuracy .binary64 s m e acc =
        .finite s em.roundedMantissa (lastPlace m e) hpos) ∨
      em.roundedMantissa = 2 ^ 53 ∧ roundWithAccuracy .binary64 s m e acc =
        .finite s (2 ^ 52) (lastPlace m e + 1) (by decide) := by
  have hfirst : shiftToTargetExponent .binary64 m e acc = (em, lastPlace m e) := by
    rw [shiftToTargetExponent_eq m he acc, hem]
  have hplace : -1074 ≤ lastPlace m e := le_max_right _ _
  rcases hle.lt_or_eq with hlt | heq
  · have hlog : em.roundedMantissa.log2 < 53 := by
      rcases Nat.eq_zero_or_pos em.roundedMantissa with hzero | hpos
      · rw [hzero]
        decide
      · exact (Nat.log2_lt hpos.ne').mpr hlt
    have hsecond := shiftToTargetExponent_of_le em.roundedMantissa (e := lastPlace m e) (by
      rw [lastPlace]
      omega)
    rcases Nat.eq_zero_or_pos em.roundedMantissa with hzero | hpos
    · refine .inl ⟨hzero, ?_⟩
      rw [roundWithAccuracy, hfirst]
      simp only [hsecond]
      exact dif_pos hzero
    · refine .inr (.inl ⟨hlt, hpos, ?_⟩)
      rw [roundWithAccuracy, hfirst]
      simp only [hsecond]
      exact dif_neg hpos.ne'
  · refine .inr (.inr ⟨heq, ?_⟩)
    have hnext : lastPlace (2 ^ 53) (lastPlace m e) = lastPlace m e + 1 := by
      rw [lastPlace, Nat.log2_two_pow]
      omega
    have hsecond := shiftToTargetExponent_eq (2 ^ 53) (e := lastPlace m e) (by omega) .exact
    rw [hnext, show (lastPlace m e + 1 - lastPlace m e).toNat = 1 by omega] at hsecond
    rw [roundWithAccuracy, hfirst]
    simp only [heq, hsecond]
    rfl

/-! What is rounded, and what it is rounded to. -/

/-- Where a number counted in units of `2 ^ t` has its last place. -/
structure Placed (y : ℚ) (t : ℤ) : Prop where
  lt : y < 2 ^ 53
  least_le : -1074 ≤ t
  full : t = -1074 ∨ 2 ^ 52 ≤ y

theorem Canonical.placed (h : Canonical m e) : Placed m e where
  lt := by exact_mod_cast h.lt
  least_le := h.least_le
  full := h.full.imp_right fun hfull => by exact_mod_cast hfull

theorem zpow_two_pos (t : ℤ) : (0 : ℚ) < 2 ^ t := zpow_pos (by norm_num) t

/-- The greater of two numbers has the greater last place. -/
theorem Placed.le_of_le {y z : ℚ} {t u : ℤ} (hy : Placed y t) (hz : Placed z u) (h : y * 2 ^ t ≤ z * 2 ^ u) :
    t ≤ u := by
  rcases hy.full with rfl | hfull
  · exact hz.least_le
  by_contra hlt
  have hstep : (2 : ℚ) ^ (u + 1) ≤ 2 ^ t := zpow_le_zpow_right₀ (by norm_num) (by omega)
  rw [zpow_add_one₀ (by norm_num)] at hstep
  have hpos := zpow_two_pos u
  have hpow : (2 : ℚ) ^ 53 = 2 * 2 ^ 52 := by norm_num
  have := calc
    z * 2 ^ u < 2 ^ 53 * 2 ^ u := mul_lt_mul_of_pos_right hz.lt hpos
    _ = 2 ^ 52 * (2 ^ u * 2) := by rw [hpow]; ring
    _ ≤ y * 2 ^ t := mul_le_mul hfull hstep (by positivity) (by linarith [pow_pos (two_pos : (0 : ℚ) < 2) 52])
  exact absurd h this.not_ge

/-- Half a unit in the last place, against the number. -/
theorem Placed.half_le {y : ℚ} {t : ℤ} (h : Placed y t) (hy : 0 ≤ y) :
    1 / 2 * (2 : ℚ) ^ t ≤ (y * 2 ^ t) / 2 ^ 53 + 2 ^ (-1075 : ℤ) := by
  have hpos := zpow_two_pos t
  rcases h.full with rfl | hfull
  · have hhalf : 1 / 2 * (2 : ℚ) ^ (-1074 : ℤ) = 2 ^ (-1075 : ℤ) := by
      rw [show (-1074 : ℤ) = -1075 + 1 by norm_num, zpow_add_one₀ (by norm_num)]
      ring
    have : 0 ≤ y * (2 : ℚ) ^ (-1074 : ℤ) / 2 ^ 53 := by positivity
    linarith
  · have : 1 / 2 * (2 : ℚ) ^ t ≤ (y * 2 ^ t) / 2 ^ 53 := by
      rw [le_div_iff₀ (by norm_num)]
      have := mul_le_mul_of_nonneg_right hfull hpos.le
      have hpow : (2 : ℚ) ^ 53 = 2 * 2 ^ 52 := by norm_num
      rw [hpow]
      linarith
    linarith [zpow_two_pos (-1075)]

section

variable (hx : Locates (.ofMantissaAndAccuracy m acc) x) (he : e ≤ lastPlace m e)
include hx he

theorem locates_lastPlace :
    Locates (ExtendedMantissa.ofMantissaAndAccuracy m acc >>> (lastPlace m e - e).toNat)
      (x * 2 ^ e / 2 ^ lastPlace m e) := by
  have hk := hx.shiftRight (lastPlace m e - e).toNat
  have hsplit : x * 2 ^ e / 2 ^ lastPlace m e = x / 2 ^ (lastPlace m e - e).toNat := by
    rw [← zpow_natCast, Int.toNat_of_nonneg (by omega), zpow_sub₀ (by norm_num)]
    field_simp
  rwa [hsplit]

theorem placed_lastPlace : Placed (x * 2 ^ e / 2 ^ lastPlace m e) (lastPlace m e) where
  lt := by
    have hm : (m : ℚ) + 1 ≤ 2 ^ (m.log2 + 1) := by exact_mod_cast Nat.lt_log2_self
    rw [div_lt_iff₀ (zpow_two_pos _)]
    calc
      x * 2 ^ e < 2 ^ (m.log2 + 1) * 2 ^ e := by
        have hlt := hx.bounds.2
        rw [mantissa_ofMantissaAndAccuracy] at hlt
        exact mul_lt_mul_of_pos_right (hlt.trans_le hm) (zpow_two_pos e)
      _ = 2 ^ ((m.log2 : ℤ) + 1 + e) := by rw [zpow_add₀ two_ne_zero]; norm_cast
      _ ≤ 2 ^ (53 + lastPlace m e) := zpow_le_zpow_right₀ one_le_two (by rw [lastPlace]; omega)
      _ = 2 ^ 53 * 2 ^ lastPlace m e := by rw [zpow_add₀ two_ne_zero]; norm_cast
  least_le := le_max_right _ _
  full := by
    rcases max_choice (m.log2 + e - 52) (-1074) with hplace | hplace
    · right
      rw [← lastPlace] at hplace
      have hm : m ≠ 0 := by
        rintro rfl
        rw [Nat.log2_zero] at hplace
        omega
      rw [le_div_iff₀ (zpow_two_pos _)]
      calc
        2 ^ 52 * 2 ^ lastPlace m e = (2 : ℚ) ^ (52 + lastPlace m e) := by
          rw [zpow_add₀ two_ne_zero]; norm_cast
        _ = 2 ^ m.log2 * 2 ^ e := by
          rw [hplace, show 52 + (m.log2 + e - 52) = (m.log2 : ℤ) + e by ring, zpow_add₀ two_ne_zero]
          norm_cast
        _ ≤ x * 2 ^ e := by
          have hle := hx.bounds.1
          rw [mantissa_ofMantissaAndAccuracy] at hle
          refine mul_le_mul_of_nonneg_right (le_trans ?_ hle) (zpow_two_pos e).le
          exact_mod_cast Nat.log2_self_le hm
    · exact .inl hplace

/-- A rounded mantissa is full where it has to be, and at most one too large. -/
theorem roundedMantissa_bounds
    (hem : em = ExtendedMantissa.ofMantissaAndAccuracy m acc >>> (lastPlace m e - e).toNat) :
    em.roundedMantissa ≤ 2 ^ 53 ∧ (lastPlace m e = -1074 ∨ 2 ^ 52 ≤ em.roundedMantissa) := by
  have hlocates : Locates em _ := hem ▸ locates_lastPlace hx he
  have hplaced := placed_lastPlace hx he
  obtain ⟨hlow, hhigh⟩ := hlocates.bounds
  have hbounds := halfEven_bounds (x * 2 ^ e / 2 ^ lastPlace m e)
  rw [← hlocates.roundedMantissa_eq, hlocates.floor_eq] at hbounds
  constructor
  · have : em.mantissa < 2 ^ 53 := by exact_mod_cast hlow.trans_lt hplaced.lt
    omega
  · refine hplaced.full.imp_right fun hfull => ?_
    have : 2 ^ 52 < em.mantissa + 1 := by exact_mod_cast hfull.trans_lt hhigh
    omega

end

def withSign : Sign → ℚ → ℚ
  | .negative, q => -q
  | .positive, q => q

/-- The number that is meant; infinities and what is no number come to zero. -/
def rationalOf : UnpackedFloat → ℚ
  | .finite s m e _ => withSign s (m * 2 ^ e)
  | _ => 0

/-- Zero, or a number in the form that doubles have, with any exponent that is large enough. -/
inductive Rounded : UnpackedFloat → Prop
  | zero (s : Sign) : Rounded (.zero s)
  | finite (s : Sign) {m : ℕ} {e : ℤ} (hpos : 0 < m) (h : Canonical m e) : Rounded (.finite s m e hpos)

theorem abs_withSign (s : Sign) (q : ℚ) : |withSign s q| = |q| := by
  cases s <;> simp [withSign]

theorem withSign_zero (s : Sign) : withSign s 0 = 0 := by
  cases s <;> simp [withSign]

theorem rationalOf_zero (s : Sign) : rationalOf (.zero s) = 0 := rfl

theorem abs_rationalOf_finite (s : Sign) (hpos : 0 < m) :
    |rationalOf (.finite s m e hpos)| = m * 2 ^ e := by
  rw [rationalOf, abs_withSign, abs_of_nonneg (mul_nonneg m.cast_nonneg (zpow_two_pos e).le)]

/-- The exponent of the last place of `q`. -/
def placeOf (q : ℚ) : ℤ := max (Int.log 2 |q| - 52) (-1074)

/-- `q` rounded to what doubles have room for, exponents apart that are too large. -/
def nearest (q : ℚ) : ℚ :=
  let magnitude : ℚ := halfEven (|q| / 2 ^ placeOf q) * 2 ^ placeOf q
  if q < 0 then -magnitude else magnitude

theorem nearest_zero : nearest 0 = 0 := by
  have hzero : halfEven 0 = 0 := halfEven_natCast 0
  simp [nearest, hzero]

theorem nearest_neg (q : ℚ) : nearest (-q) = -nearest q := by
  have hplace : placeOf (-q) = placeOf q := by rw [placeOf, placeOf, abs_neg]
  rcases lt_trichotomy q 0 with hq | rfl | hq
  · rw [nearest, nearest, hplace, abs_neg, if_pos hq, if_neg (neg_pos.mpr hq).le.not_gt, neg_neg]
  · rw [neg_zero, nearest_zero, neg_zero]
  · rw [nearest, nearest, hplace, abs_neg, if_neg hq.le.not_gt, if_pos (neg_lt_zero.mpr hq)]

theorem placed_placeOf (hq : q ≠ 0) : Placed (|q| / 2 ^ placeOf q) (placeOf q) where
  lt := by
    rw [div_lt_iff₀ (zpow_two_pos _)]
    calc
      |q| < 2 ^ (Int.log 2 |q| + 1) := Int.lt_zpow_succ_log_self one_lt_two _
      _ ≤ 2 ^ (53 + placeOf q) := zpow_le_zpow_right₀ one_le_two (by rw [placeOf]; omega)
      _ = 2 ^ 53 * 2 ^ placeOf q := by rw [zpow_add₀ two_ne_zero]; norm_cast
  least_le := le_max_right _ _
  full := by
    rcases max_choice (Int.log 2 |q| - 52) (-1074) with hplace | hplace
    · right
      rw [← placeOf] at hplace
      rw [le_div_iff₀ (zpow_two_pos _)]
      calc
        2 ^ 52 * 2 ^ placeOf q = (2 : ℚ) ^ (52 + placeOf q) := by rw [zpow_add₀ two_ne_zero]; norm_cast
        _ = 2 ^ Int.log 2 |q| := by rw [hplace, add_sub_cancel]
        _ ≤ |q| := Int.zpow_log_le_self one_lt_two (abs_pos.mpr hq)
    · exact .inl hplace

/-- Where a number has its last place does not hang on how it is given. -/
theorem placeOf_eq {y : ℚ} {t : ℤ} (h : Placed y t) (hy : 0 < y) : placeOf (y * 2 ^ t) = t := by
  have hpos : 0 < y * 2 ^ t := mul_pos hy (zpow_two_pos t)
  have hplaced := placed_placeOf hpos.ne'
  have hvalue := div_mul_cancel₀ |y * 2 ^ t| (zpow_two_pos (placeOf (y * 2 ^ t))).ne'
  rw [abs_of_pos hpos] at hplaced hvalue
  exact le_antisymm (hplaced.le_of_le h hvalue.le) (h.le_of_le hplaced hvalue.ge)

theorem nearest_withSign (s : Sign) {y : ℚ} {t : ℤ} (h : Placed y t) (hy : 0 ≤ y) :
    nearest (withSign s (y * 2 ^ t)) = withSign s (halfEven y * 2 ^ t) := by
  rcases hy.eq_or_lt with rfl | hy
  · have hzero : halfEven 0 = 0 := halfEven_natCast 0
    rw [zero_mul, withSign_zero, nearest_zero, hzero, Nat.cast_zero, zero_mul, withSign_zero]
  have hpos : 0 < y * 2 ^ t := mul_pos hy (zpow_two_pos t)
  have hplace : placeOf (withSign s (y * 2 ^ t)) = t := by
    rw [placeOf, abs_withSign]
    exact placeOf_eq h hy
  rw [nearest, hplace, abs_withSign, abs_of_pos hpos, mul_div_cancel_right₀ _ (zpow_two_pos t).ne']
  cases s
  · exact if_pos (neg_lt_zero.mpr hpos)
  · exact if_neg hpos.le.not_gt

theorem nearest_near (q : ℚ) : |nearest q - q| ≤ |q| / 2 ^ 53 + 2 ^ (-1075 : ℤ) := by
  rcases eq_or_ne q 0 with rfl | hq
  · rw [nearest_zero, sub_self, abs_zero, zero_div, zero_add]
    exact (zpow_two_pos _).le
  have hpos := zpow_two_pos (placeOf q)
  have hy : 0 ≤ |q| / 2 ^ placeOf q := div_nonneg (abs_nonneg q) hpos.le
  have hvalue := div_mul_cancel₀ |q| hpos.ne'
  have hmagnitude : |nearest q - q| = |(halfEven (|q| / 2 ^ placeOf q) * 2 ^ placeOf q - |q| : ℚ)| := by
    rw [nearest]
    split
    next hneg =>
      rw [abs_of_neg hneg, sub_neg_eq_add, ← abs_neg]
      ring_nf
    next hnonneg => rw [abs_of_nonneg (not_lt.mp hnonneg)]
  rw [hmagnitude]
  have hhalf := (placed_placeOf hq).half_le hy
  rw [hvalue] at hhalf
  refine le_trans ?_ hhalf
  nth_rewrite 2 [← hvalue]
  rw [← sub_mul, abs_mul, abs_of_pos hpos]
  exact mul_le_mul_of_nonneg_right (halfEven_near hy) hpos.le

/-- What is less than half the least double comes to zero. -/
theorem nearest_eq_zero (hq : |q| ≤ 2 ^ (-1076 : ℤ)) : nearest q = 0 := by
  have hstep : (2 : ℚ) ^ (-1076 : ℤ) < 1 / 2 * 2 ^ placeOf q := calc
    (2 : ℚ) ^ (-1076 : ℤ) < 2 ^ (-1075 : ℤ) := zpow_lt_zpow_right₀ one_lt_two (by decide)
    _ ≤ 2 ^ (-1 + placeOf q) := zpow_le_zpow_right₀ one_le_two (by rw [placeOf]; omega)
    _ = 1 / 2 * 2 ^ placeOf q := by rw [zpow_add₀ two_ne_zero]; norm_num
  have hhalf : |q| / 2 ^ placeOf q < 1 / 2 := (div_lt_iff₀ (zpow_two_pos _)).mpr (hq.trans_lt hstep)
  have hfloor : ⌊|q| / 2 ^ placeOf q⌋₊ = 0 := Nat.floor_eq_zero.mpr (hhalf.trans (by norm_num))
  have hzero : halfEven (|q| / 2 ^ placeOf q) = 0 := by
    rw [halfEven, hfloor, if_pos (by rwa [Nat.cast_zero, zero_add])]
  simp [nearest, hzero]

/-- Numbers that there is room for stay. -/
theorem nearest_rationalOf {r : UnpackedFloat} (h : Rounded r) : nearest (rationalOf r) = rationalOf r := by
  cases h with
  | zero s => exact nearest_zero
  | @finite s m e hpos h => rw [rationalOf, nearest_withSign s h.placed m.cast_nonneg, halfEven_natCast]

/-- `r` is the number nearest to `q`. -/
structure Nearest (q : ℚ) (r : UnpackedFloat) : Prop where
  rounded : Rounded r
  value : rationalOf r = nearest q

theorem Nearest.self {r : UnpackedFloat} (h : Rounded r) : Nearest (rationalOf r) r :=
  ⟨h, (nearest_rationalOf h).symm⟩

theorem Nearest.zero (s : Sign) : Nearest 0 (.zero s) := Nearest.self (.zero s)

theorem nearest_roundWithAccuracy (s : Sign) (hx : Locates (.ofMantissaAndAccuracy m acc) x)
    (he : e ≤ lastPlace m e) :
    Nearest (withSign s (x * 2 ^ e)) (roundWithAccuracy .binary64 s m e acc) := by
  obtain ⟨em, hem⟩ : ∃ em, em = ExtendedMantissa.ofMantissaAndAccuracy m acc >>> (lastPlace m e - e).toNat :=
    ⟨_, rfl⟩
  obtain ⟨y, hy⟩ : ∃ y, y = x * 2 ^ e / 2 ^ lastPlace m e := ⟨_, rfl⟩
  have hlocates : Locates em y := hem ▸ hy ▸ locates_lastPlace hx he
  have hplaced : Placed y (lastPlace m e) := hy ▸ placed_lastPlace hx he
  have hy0 : 0 ≤ y := em.mantissa.cast_nonneg.trans hlocates.bounds.1
  obtain ⟨hle, hfull⟩ := roundedMantissa_bounds hx he hem
  rw [show x * 2 ^ e = y * 2 ^ lastPlace m e by rw [hy, div_mul_cancel₀ _ (zpow_two_pos _).ne']]
  have hnearest := nearest_withSign s hplaced hy0
  rw [← hlocates.roundedMantissa_eq] at hnearest
  rcases roundWithAccuracy_cases s acc he hem hle with ⟨hzero, hr⟩ | ⟨hlt, hpos, hr⟩ | ⟨heq, hr⟩ <;> rw [hr]
  · refine ⟨.zero s, ?_⟩
    rw [hnearest, hzero, Nat.cast_zero, zero_mul, withSign_zero, rationalOf_zero]
  · exact ⟨.finite s hpos ⟨hpos, hlt, hplaced.least_le, hfull⟩, hnearest.symm⟩
  · have hleast := hplaced.least_le
    refine ⟨.finite s _ ⟨by decide, by decide, by omega, .inr (le_refl _)⟩, ?_⟩
    rw [hnearest, rationalOf, heq, zpow_add_one₀ two_ne_zero]
    congr 1
    push_cast
    ring

end FormulaGraph
