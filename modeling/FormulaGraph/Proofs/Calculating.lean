import FormulaGraph.Proofs.Rounding

/-! Calculations with unpacked doubles come to the exact result, rounded. -/

namespace FormulaGraph

open Float.Model (Format totalExponent UnpackedFloat)
open Float.Model.UnpackedFloat

variable {m m' : ℕ} {e e' t : ℤ} {s s' : Sign} {r r' : UnpackedFloat}

theorem withSign_mul (s s' : Sign) (p q : ℚ) : withSign (s * s') (p * q) = withSign s p * withSign s' q := by
  cases s <;> cases s' <;> simp only [withSign, neg_mul, mul_neg, neg_neg]

theorem withSign_div (s s' : Sign) (p q : ℚ) : withSign (s / s') (p / q) = withSign s p / withSign s' q := by
  cases s <;> cases s' <;> simp only [withSign, neg_div, div_neg, neg_neg] <;> rfl

theorem withSign_neg (s : Sign) (q : ℚ) : withSign (-s) q = -withSign s q := by
  cases s <;> simp only [withSign, neg_neg]

theorem rationalOf_neg (s : Sign) (hpos : 0 < m) :
    rationalOf (.finite (-s) m e hpos) = -rationalOf (.finite s m e hpos) :=
  withSign_neg s _

theorem withSign_apply (s : Sign) (m : ℕ) : ((s.apply m : ℤ) : ℚ) = withSign s m := by
  cases s <;> simp [withSign, Sign.apply]

theorem log2_shiftLeft (hm : m ≠ 0) (k : ℕ) : (m <<< k).log2 = m.log2 + k := by
  have hbounds := Nat.mul_le_mul_right (2 ^ k) (Nat.log2_self_le hm)
  have hbounds' := Nat.mul_lt_mul_of_pos_right (Nat.lt_log2_self (n := m)) (Nat.two_pow_pos k)
  rw [← Nat.pow_add] at hbounds hbounds'
  rw [Nat.shiftLeft_eq, Nat.log2_eq_iff (Nat.mul_ne_zero hm (Nat.two_pow_pos k).ne')]
  exact ⟨hbounds, by rwa [Nat.add_right_comm]⟩

/-- The number stays when more places are written. -/
theorem decreaseExponent_eq (m : ℕ) (e t : ℤ) :
    (decreaseExponent m e t).2 = min e t ∧
      ((decreaseExponent m e t).1 : ℚ) * 2 ^ min e t = m * 2 ^ e := by
  have hmin : e - ((e - t).toNat : ℤ) = min e t := by omega
  refine ⟨hmin, ?_⟩
  change ((m <<< (e - t).toNat : ℕ) : ℚ) * _ = _
  rw [Nat.shiftLeft_eq, Nat.cast_mul, mul_assoc, Nat.cast_pow, Nat.cast_two, ← zpow_natCast,
    ← zpow_add₀ two_ne_zero, ← hmin]
  congr 2
  ring

theorem nearest_round (s : Sign) (hm : m ≠ 0) (e : ℤ) :
    Nearest (withSign s (m * 2 ^ e)) (UnpackedFloat.round .binary64 s m e) := by
  obtain ⟨he, hvalue⟩ := decreaseExponent_eq m e (lastPlace m e)
  have hlog : lastPlace (decreaseExponent m e (lastPlace m e)).1 (min e (lastPlace m e)) = lastPlace m e := by
    have hshift : (decreaseExponent m e (lastPlace m e)).1.log2 = m.log2 + (e - lastPlace m e).toNat :=
      log2_shiftLeft hm _
    rw [lastPlace, hshift]
    simp only [lastPlace]
    omega
  have hle : (decreaseExponent m e (lastPlace m e)).2 ≤
      lastPlace (decreaseExponent m e (lastPlace m e)).1 (decreaseExponent m e (lastPlace m e)).2 := by
    rw [he, hlog]
    exact min_le_right _ _
  rw [UnpackedFloat.round, targetExponent_eq, ← hvalue, ← he]
  exact nearest_roundWithAccuracy s (locates_exact _) hle

theorem nearest_normalize (n : ℤ) (e : ℤ) (s : Sign) :
    Nearest (n * 2 ^ e) (UnpackedFloat.normalize .binary64 n e s) := by
  rw [UnpackedFloat.normalize]
  rcases lt_trichotomy n 0 with hn | rfl | hn
  · rw [compare_lt_iff_lt.mpr hn]
    have h := nearest_round .negative (m := (-n).toNat) (by omega) e
    have hcast : ((-n).toNat : ℚ) = -n := by
      exact_mod_cast Int.toNat_of_nonneg (by omega)
    simpa [withSign, hcast] using h
  · simpa using Nearest.zero s
  · rw [compare_gt_iff_gt.mpr hn]
    have h := nearest_round .positive (m := n.toNat) (by omega) e
    have hcast : (n.toNat : ℚ) = n := by
      exact_mod_cast Int.toNat_of_nonneg (by omega)
    simpa [withSign, hcast] using h

/-- Products of mantissas have places enough. -/
theorem nearest_product (s s' : Sign) (e e' : ℤ) (h : 2 ^ 52 ≤ m * m' ∨ e + e' ≤ -1074) :
    Nearest (withSign s (m * 2 ^ e) * withSign s' (m' * 2 ^ e'))
      (roundWithAccuracy .binary64 (s * s') (m * m') (e + e') .exact) := by
  have hle : e + e' ≤ lastPlace (m * m') (e + e') := by
    rcases h with h | h
    · have := (Nat.le_log2 (by omega : m * m' ≠ 0)).mpr h
      rw [lastPlace]
      omega
    · exact h.trans (le_max_right _ _)
  have hvalue : ((m : ℚ) * 2 ^ e) * (m' * 2 ^ e') = ((m * m' : ℕ) : ℚ) * 2 ^ (e + e') := by
    rw [zpow_add₀ two_ne_zero]
    push_cast
    ring
  rw [← withSign_mul, hvalue]
  exact nearest_roundWithAccuracy _ (locates_exact _) hle

theorem locates_quotient (m : ℕ) (hm' : 0 < m') :
    Locates (.ofMantissaAndAccuracy (m / m') (accuracyOfFraction (m % m') m')) (m / m') := by
  have hpos : (0 : ℚ) < m' := by exact_mod_cast hm'
  have hlt := Nat.mod_lt m hm'
  have hsplit : (m : ℚ) / m' = (m / m' : ℕ) + ((m % m' : ℕ) : ℚ) / m' := by
    rw [div_eq_iff hpos.ne', add_mul, div_mul_cancel₀ _ hpos.ne']
    exact_mod_cast (Nat.div_add_mod' m m').symm
  rw [hsplit]
  generalize m / m' = n at *
  generalize m % m' = k at *
  rw [accuracyOfFraction]
  split
  next hzero => simp [hzero, Locates, ExtendedMantissa.ofMantissaAndAccuracy]
  next hzero =>
    have hk : (0 : ℚ) < k := by exact_mod_cast Nat.pos_of_ne_zero hzero
    have hone : (k : ℚ) / m' < 1 := by
      rw [div_lt_one hpos]
      exact_mod_cast hlt
    have hzero : 0 < (k : ℚ) / m' := div_pos hk hpos
    rcases lt_trichotomy (2 * k) m' with h | h | h
    · rw [compare_lt_iff_lt.mpr h]
      have : (k : ℚ) / m' < 1 / 2 := by
        rw [div_lt_div_iff₀ hpos two_pos]
        exact_mod_cast (by omega : k * 2 < 1 * m')
      simp only [Locates, ExtendedMantissa.ofMantissaAndAccuracy]
      constructor <;> linarith
    · rw [compare_eq_iff_eq.mpr h]
      have : (k : ℚ) / m' = 1 / 2 := by
        rw [div_eq_div_iff hpos.ne' two_ne_zero]
        exact_mod_cast (by omega : k * 2 = 1 * m')
      simp only [Locates, ExtendedMantissa.ofMantissaAndAccuracy]
      linarith
    · rw [compare_gt_iff_gt.mpr h]
      have : 1 / 2 < (k : ℚ) / m' := by
        rw [div_lt_div_iff₀ two_pos hpos]
        exact_mod_cast (by omega : 1 * m' < k * 2)
      simp only [Locates, ExtendedMantissa.ofMantissaAndAccuracy]
      constructor <;> linarith

/-- Quotients of mantissas are given places enough. -/
theorem nearest_quotient (s s' : Sign) (e e' : ℤ) (hm : 0 < m) (hm' : 0 < m') :
    Nearest (withSign s (m * 2 ^ e) / withSign s' (m' * 2 ^ e'))
      (roundWithAccuracy .binary64 (s / s') (divCore .binary64 m e m' e').1
        (divCore .binary64 m e m' e').2.1 (divCore .binary64 m e m' e').2.2) := by
  obtain ⟨place, hplace⟩ : ∃ place, place = (divCore .binary64 m e m' e').2.1 := ⟨_, rfl⟩
  have hplace' : place = min (e - e') (max (m.log2 + e - (m'.log2 + e') - 53) (-1074)) := by
    rw [hplace, divCore, Format.targetExponent]
    simp only [totalExponent, Format.mantissaBits, Format.minExponent]
    omega
  obtain ⟨k, hk⟩ : ∃ k : ℕ, e - e' = place + k := ⟨(e - e' - place).toNat, by omega⟩
  have hcore : divCore .binary64 m e m' e' =
      ((m <<< k) / m', place, accuracyOfFraction ((m <<< k) % m') m') := by
    have hshift : (e - e' - place).toNat = k := by omega
    rw [← hshift, hplace]
    rfl
  have hvalue : ((m <<< k : ℕ) : ℚ) / m' * 2 ^ place = m * 2 ^ e / (m' * 2 ^ e') := by
    have hpos : (0 : ℚ) < m' := by exact_mod_cast hm'
    have hpow : (2 : ℚ) ^ k * 2 ^ place = 2 ^ e / 2 ^ e' := by
      rw [← zpow_sub₀ two_ne_zero, hk, zpow_add₀ two_ne_zero, zpow_natCast, mul_comm]
    rw [Nat.shiftLeft_eq, Nat.cast_mul, Nat.cast_pow, Nat.cast_two, mul_div_right_comm, mul_assoc, hpow]
    have := zpow_two_pos e'
    field_simp
  have hle : place ≤ lastPlace ((m <<< k) / m') place := by
    rcases le_or_gt place (-1074) with hsmall | hlarge
    · exact hsmall.trans (le_max_right _ _)
    · -- The shift makes the dividend longer than the divisor by a full mantissa.
      have hne : m <<< k ≠ 0 := by
        rw [Nat.shiftLeft_eq]
        exact Nat.mul_ne_zero hm.ne' (Nat.two_pow_pos k).ne'
      have hlong : 2 ^ 52 * m' ≤ m <<< k := calc
        2 ^ 52 * m' ≤ 2 ^ 52 * 2 ^ (m'.log2 + 1) := Nat.mul_le_mul_left _ Nat.lt_log2_self.le
        _ ≤ 2 ^ (m <<< k).log2 := by
          rw [← Nat.pow_add, log2_shiftLeft hm.ne']
          exact Nat.pow_le_pow_right two_pos (by omega)
        _ ≤ m <<< k := Nat.log2_self_le hne
      have hfull : 2 ^ 52 ≤ (m <<< k) / m' := (Nat.le_div_iff_mul_le hm').mpr hlong
      have hlog := (Nat.le_log2 (by omega)).mpr hfull
      rw [lastPlace]
      omega
  rw [← withSign_div, ← hvalue, hcore]
  exact nearest_roundWithAccuracy _ (locates_quotient _ hm') hle

/-! The calculations. -/

theorem nearest_mul (h : Rounded r) (h' : Rounded r') :
    Nearest (rationalOf r * rationalOf r') (mul .binary64 r r') := by
  cases h with
  | zero s =>
    rw [rationalOf_zero, zero_mul]
    cases h' <;> exact .zero _
  | finite s hpos hc =>
    cases h' with
    | zero s' =>
      rw [rationalOf_zero, mul_zero]
      exact .zero _
    | finite s' hpos' hc' =>
      refine nearest_product s s' _ _ ?_
      rcases hc.full with rfl | hfull
      · rcases hc'.full with rfl | hfull'
        · exact .inr (by decide)
        · exact .inl (hfull'.trans (Nat.le_mul_of_pos_left _ hpos))
      · exact .inl (hfull.trans (Nat.le_mul_of_pos_right _ hpos'))

theorem nearest_div (h : Rounded r) (h' : Rounded r') (hne : rationalOf r' ≠ 0) :
    Nearest (rationalOf r / rationalOf r') (div .binary64 r r') := by
  cases h' with
  | zero s' => exact absurd rfl hne
  | finite s' hpos' hc' =>
    cases h with
    | zero s =>
      rw [rationalOf_zero, zero_div]
      exact .zero _
    | finite s hpos hc => exact nearest_quotient s s' _ _ hpos hpos'

theorem withSign_decreaseExponent (s : Sign) (m : ℕ) (h : t ≤ e) :
    ((s.apply (decreaseExponent m e t).1 : ℤ) : ℚ) * 2 ^ t = withSign s (m * 2 ^ e) := by
  obtain ⟨-, hvalue⟩ := decreaseExponent_eq m e t
  rw [min_eq_right h] at hvalue
  rw [withSign_apply, ← hvalue]
  cases s <;> simp only [withSign, neg_mul]

theorem nearest_add (h : Rounded r) (h' : Rounded r') :
    Nearest (rationalOf r + rationalOf r') (add .binary64 r r') := by
  cases h with
  | zero s =>
    rw [rationalOf_zero, zero_add]
    cases h' with
    | zero s' =>
      rw [rationalOf_zero, add]
      split <;> exact .zero _
    | finite s' hpos' hc' => exact .self (.finite s' hpos' hc')
  | @finite s m e hpos hc =>
    cases h' with
    | zero s' =>
      rw [rationalOf_zero, add_zero]
      exact .self (.finite s hpos hc)
    | @finite s' m' e' hpos' hc' =>
      have hsum := nearest_normalize (s.apply (decreaseExponent m e (min e e')).1 +
        s'.apply (decreaseExponent m' e' (min e e')).1) (min e e') .positive
      rw [Int.cast_add, add_mul, withSign_decreaseExponent s m (min_le_left e e'),
        withSign_decreaseExponent s' m' (min_le_right e e')] at hsum
      exact hsum

theorem nearest_sub (h : Rounded r) (h' : Rounded r') :
    Nearest (rationalOf r - rationalOf r') (sub .binary64 r r') := by
  cases h with
  | zero s =>
    rw [rationalOf_zero, zero_sub]
    cases h' with
    | zero s' =>
      rw [rationalOf_zero, neg_zero, sub]
      split <;> exact .zero _
    | finite s' hpos' hc' =>
      have hneg := Nearest.self (.finite (-s') hpos' hc')
      rw [rationalOf_neg] at hneg
      exact hneg
  | @finite s m e hpos hc =>
    cases h' with
    | zero s' =>
      rw [rationalOf_zero, sub_zero]
      exact .self (.finite s hpos hc)
    | @finite s' m' e' hpos' hc' =>
      have hdifference := nearest_normalize (s.apply (decreaseExponent m e (min e e')).1 -
        s'.apply (decreaseExponent m' e' (min e e')).1) (min e e') .positive
      rw [Int.cast_sub, sub_mul, withSign_decreaseExponent s m (min_le_left e e'),
        withSign_decreaseExponent s' m' (min_le_right e e')] at hdifference
      exact hdifference

/-! Comparing. -/

theorem Canonical.magnitude_pos (h : Canonical m e) : (0 : ℚ) < m * 2 ^ e :=
  mul_pos (by exact_mod_cast h.pos) (zpow_two_pos e)

theorem Canonical.lt_of_lt (h : Canonical m e) (h' : Canonical m' e') (hlt : e < e') :
    (m : ℚ) * 2 ^ e < m' * 2 ^ e' :=
  lt_of_not_ge fun hge => (h'.placed.le_of_le h.placed hge).not_gt hlt

/-- Exponents decide before mantissas. -/
theorem Canonical.compare_eq (h : Canonical m e) (h' : Canonical m' e') :
    (compare e e').then (compare m m') = compare ((m : ℚ) * 2 ^ e) (m' * 2 ^ e') := by
  rcases lt_trichotomy e e' with hlt | rfl | hgt
  · rw [compare_lt_iff_lt.mpr hlt, compare_lt_iff_lt.mpr (h.lt_of_lt h' hlt)]
    rfl
  · have hpos := zpow_two_pos e
    rw [compare_eq_iff_eq.mpr rfl, Ordering.eq_then]
    rcases lt_trichotomy m m' with hlt | rfl | hgt
    · rw [compare_lt_iff_lt.mpr hlt, eq_comm, compare_lt_iff_lt]
      exact mul_lt_mul_of_pos_right (by exact_mod_cast hlt) hpos
    · rw [compare_eq_iff_eq.mpr rfl, compare_eq_iff_eq.mpr rfl]
    · rw [compare_gt_iff_gt.mpr hgt, eq_comm, compare_gt_iff_gt]
      exact mul_lt_mul_of_pos_right (by exact_mod_cast hgt) hpos
  · rw [compare_gt_iff_gt.mpr hgt, compare_gt_iff_gt.mpr (h'.lt_of_lt h hgt)]
    rfl

theorem compare_neg_neg (p q : ℚ) : compare (-p) (-q) = (compare p q).swap := by
  rcases lt_trichotomy p q with h | rfl | h
  · rw [compare_lt_iff_lt.mpr h, compare_gt_iff_gt.mpr (neg_lt_neg h)]
    rfl
  · rw [compare_eq_iff_eq.mpr rfl, compare_eq_iff_eq.mpr rfl]
    rfl
  · rw [compare_gt_iff_gt.mpr h, compare_lt_iff_lt.mpr (neg_lt_neg h)]
    rfl

theorem compare_eq (h : Rounded r) (h' : Rounded r') :
    r.compare r' = some (compare (rationalOf r) (rationalOf r')) := by
  cases h with
  | zero s =>
    cases h' with
    | zero s' => rfl
    | finite s' hpos' hc' =>
      have := hc'.magnitude_pos
      cases s'
      · refine congrArg some (Eq.symm (compare_gt_iff_gt.mpr ?_))
        simp only [rationalOf, withSign]
        linarith
      · exact congrArg some (Eq.symm (compare_lt_iff_lt.mpr this))
  | finite s hpos hc =>
    have hm := hc.magnitude_pos
    cases h' with
    | zero s' =>
      cases s
      · refine congrArg some (Eq.symm (compare_lt_iff_lt.mpr ?_))
        simp only [rationalOf, withSign]
        linarith
      · exact congrArg some (Eq.symm (compare_gt_iff_gt.mpr hm))
    | finite s' hpos' hc' =>
      have hm' := hc'.magnitude_pos
      cases s <;> cases s'
      · refine congrArg some ?_
        rw [hc.compare_eq hc']
        exact (compare_neg_neg _ _).symm
      · refine congrArg some (Eq.symm (compare_lt_iff_lt.mpr ?_))
        simp only [rationalOf, withSign]
        linarith
      · refine congrArg some (Eq.symm (compare_gt_iff_gt.mpr ?_))
        simp only [rationalOf, withSign]
        linarith
      · exact congrArg some (hc.compare_eq hc')

end FormulaGraph
