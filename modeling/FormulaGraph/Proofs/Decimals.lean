import FormulaGraph.Proofs.Doubles
import FormulaGraph.Number.Basic

/-! Decimal numbers and the doubles nearest to them. A number written out reads back as a number nearby. -/

namespace FormulaGraph

open Float.Model (Format UnpackedFloat)
open Float.Model.UnpackedFloat

variable {m n : ℕ} {e : ℤ} {x y : Float}

/-- The number that a decimal is. -/
def Decimal.value (d : Decimal) : ℚ := d.digits * 10 ^ d.exponent

/-! The nearest double. -/

theorem two_zpow_le {k : ℤ} (hk : 0 ≤ k) : (2 : ℚ) ^ (3 * k) ≤ 10 ^ k := by
  obtain ⟨n, rfl⟩ := Int.eq_ofNat_of_zero_le hk
  rw [zpow_mul, zpow_natCast, zpow_natCast]
  gcongr
  norm_num

theorem ten_zpow_le {k : ℤ} (hk : k ≤ 0) : (10 : ℚ) ^ k ≤ 2 ^ (3 * k) := by
  have h := two_zpow_le (k := -k) (by omega)
  rw [mul_neg, zpow_neg, zpow_neg] at h
  exact (inv_le_inv₀ (zpow_pos two_pos _) (zpow_pos (by norm_num) k)).mp h

/-- Scaled by a power of ten without limits to the work. -/
theorem rounds_ofScientific (m : ℕ) (e : ℤ) :
    Rounds (m * 10 ^ e) (.ofModel (.ofScientific m e)) := by
  change Rounds _ (packed (ofScientific .binary64 m e))
  rw [ofScientific]
  split
  next hzero =>
    rw [hzero, Nat.cast_zero, zero_mul]
    exact (Nearest.zero _).rounds
  next hne =>
  have hone : (1 : ℚ) ≤ m := by exact_mod_cast Nat.pos_of_ne_zero hne
  split
  next hlarge =>
    have hlarge : 2048 < e := hlarge
    refine Rounds.huge ?_ (unpack_packedInfinity .positive)
    calc
      (2 : ℚ) ^ (1025 : ℤ) ≤ 2 ^ (3 * e) := zpow_le_zpow_right₀ one_le_two (by omega)
      _ ≤ 10 ^ e := two_zpow_le (by omega)
      _ ≤ m * 10 ^ e := le_mul_of_one_le_left (by positivity) hone
      _ ≤ |(m : ℚ) * 10 ^ e| := le_abs_self _
  split
  next hsmall =>
    have hsmall : e < -(2048 + m.log2) := hsmall
    refine Rounds.tiny ?_ (unpack_pack_zero .positive)
    rw [abs_of_nonneg (by positivity)]
    calc
      (m : ℚ) * 10 ^ e ≤ 2 ^ ((m.log2 : ℤ) + 1) * 2 ^ (3 * e) := by
        refine mul_le_mul ?_ (ten_zpow_le (by omega)) (by positivity) (by positivity)
        exact_mod_cast Nat.lt_log2_self.le
      _ = 2 ^ ((m.log2 : ℤ) + 1 + 3 * e) := (zpow_add₀ two_ne_zero _ _).symm
      _ ≤ 2 ^ (-1076 : ℤ) := zpow_le_zpow_right₀ one_le_two (by omega)
  split
  next hnonneg =>
    obtain ⟨k, rfl⟩ := Int.eq_ofNat_of_zero_le hnonneg
    have hfull : 2 ^ 52 ≤ (m <<< 53) * 10 ^ k := by
      rw [Nat.shiftLeft_eq]
      have hstep := Nat.mul_le_mul_right (2 ^ 53) (Nat.pos_of_ne_zero hne)
      have hscale := Nat.le_mul_of_pos_right (m * 2 ^ 53) (pow_pos (by decide : 0 < 10) k)
      omega
    have h := nearest_product .positive .positive (-53) 0 (.inl hfull)
    have hvalue : ((m <<< 53 : ℕ) : ℚ) * 2 ^ (-53 : ℤ) = m := by
      rw [Nat.shiftLeft_eq, Nat.cast_mul, mul_assoc]
      norm_num
    rw [withSign, withSign, hvalue, zpow_zero, mul_one, Nat.cast_pow] at h
    exact h.rounds
  next hneg =>
    have hpower : 0 < 10 ^ (-e).toNat := by positivity
    have h := nearest_quotient .positive .positive 0 0 (Nat.pos_of_ne_zero hne) hpower
    have hvalue : (m : ℚ) * 10 ^ e = m / 10 ^ (-e).toNat := by
      rw [← zpow_natCast, Int.toNat_of_nonneg (by omega), zpow_neg, div_inv_eq_mul]
    rw [withSign, withSign, zpow_zero, mul_one, mul_one, Nat.cast_pow, Nat.cast_ofNat, ← hvalue] at h
    exact h.rounds

/-- The powers of ten that are doubles, as they are tabulated. -/
def isPowerOfTen (n : ℕ) (x : Float) : Bool :=
  match unpacked x with
  | .finite .positive m e _ => m * 2 ^ e.toNat == 10 ^ n * 2 ^ (-e).toNat
  | _ => false

theorem rational_of_isPowerOfTen (h : isPowerOfTen n x = true) : x.isFinite = true ∧ rational x = 10 ^ n := by
  rw [isPowerOfTen] at h
  rw [isFinite_eq, rational]
  split at h
  next m e hpos hx =>
    rw [hx]
    refine ⟨rfl, ?_⟩
    have heq : (m : ℚ) * 2 ^ e.toNat = 10 ^ n * 2 ^ (-e).toNat := by exact_mod_cast beq_iff_eq.mp h
    have hsplit : (2 : ℚ) ^ e = 2 ^ e.toNat / 2 ^ (-e).toNat := by
      rw [← zpow_natCast, ← zpow_natCast, ← zpow_sub₀ two_ne_zero]
      congr 1
      omega
    rw [rationalOf, withSign, hsplit, ← mul_div_assoc, heq, mul_div_cancel_right₀ _ (by positivity)]
  next => cases h

theorem isPowerOfTen_table : ∀ n : Fin 23, isPowerOfTen n Float.exactlyRepresentablePowersOfTen[n] = true := by
  decide +kernel

/-- Whole numbers of up to fifty-three bits need no rounding. -/
theorem exists_rounded (hm : m < 2 ^ 53) : ∃ r, Rounded r ∧ rationalOf r = m := by
  rcases Nat.eq_zero_or_pos m with rfl | hpos
  · exact ⟨.zero .positive, .zero _, by rw [rationalOf_zero, Nat.cast_zero]⟩
  have hlog : m.log2 < 53 := (Nat.log2_lt hpos.ne').mpr hm
  obtain ⟨k, hk⟩ : ∃ k, m.log2 + k = 52 := ⟨52 - m.log2, by omega⟩
  have hlow := Nat.mul_le_mul_right (2 ^ k) (Nat.log2_self_le hpos.ne')
  have hhigh := Nat.mul_lt_mul_of_pos_right (Nat.lt_log2_self (n := m)) (Nat.two_pow_pos k)
  rw [← Nat.pow_add] at hlow hhigh
  rw [hk] at hlow
  rw [Nat.add_right_comm, hk] at hhigh
  have hpos' : 0 < m * 2 ^ k := Nat.mul_pos hpos (Nat.two_pow_pos k)
  refine ⟨.finite .positive (m * 2 ^ k) (-k) hpos', .finite _ _ ⟨hpos', hhigh, by omega, .inr hlow⟩, ?_⟩
  rw [rationalOf, withSign, zpow_neg, zpow_natCast]
  push_cast
  field_simp

theorem rational_toFloat (hm : m < 2 ^ 53) :
    m.toUInt64.toFloat.isFinite = true ∧ rational m.toUInt64.toFloat = m := by
  have hword : m.toUInt64.toNat = m := by
    rw [Nat.toUInt64_eq, UInt64.toNat_ofNat']
    omega
  have h : Nearest (((m.toUInt64.toNat : ℕ) : ℤ) * 2 ^ (0 : ℤ))
      (ofUInt64 .binary64 m.toUInt64) := nearest_normalize _ 0 .positive
  rw [hword, zpow_zero, mul_one, Int.cast_natCast] at h
  obtain ⟨r, hr, hvalue⟩ := exists_rounded hm
  have hexact : rationalOf (ofUInt64 .binary64 m.toUInt64) = m := by
    rw [h.value, ← hvalue, nearest_rationalOf hr]
  rw [← hexact]
  refine rational_packed h.rounded ?_
  have hlarge : (2 : ℚ) ^ 53 < 2 ^ (1024 : ℤ) := by
    rw [← zpow_natCast]
    exact zpow_lt_zpow_right₀ one_lt_two (by decide)
  rw [hexact, Nat.abs_cast]
  exact lt_trans (by exact_mod_cast hm) hlarge

/-- Either way of scaling by a power of ten comes to the double nearest to the exact number. -/
theorem rounds_ofScientific' (m : ℕ) (negative : Bool) (k : ℕ) :
    Rounds (m * 10 ^ (if negative then -(k : ℤ) else k)) (Float.ofScientific m negative k) := by
  by_cases h : m < 2 ^ 53 ∧ k ≤ 22
  · obtain ⟨hfinite, hvalue⟩ := rational_toFloat h.1
    obtain ⟨hfinite', hvalue'⟩ := rational_of_isPowerOfTen (isPowerOfTen_table ⟨k, by omega⟩)
    have hpos : (10 : ℚ) ^ k ≠ 0 := by positivity
    rw [Float.ofScientific, dif_pos h]
    cases negative
    · have hproduct := rounds_mul hfinite hfinite'
      rw [hvalue, hvalue'] at hproduct
      exact hproduct
    · have hquotient := rounds_div hfinite hfinite' (hvalue' ▸ hpos)
      rw [hvalue, hvalue', div_eq_mul_inv, ← zpow_natCast, ← zpow_neg] at hquotient
      exact hquotient
  · rw [Float.ofScientific, dif_neg h]
    cases negative
    · exact rounds_ofScientific m k
    · exact rounds_ofScientific m (-(k : ℤ))

theorem ten_zpow_pos (k : ℤ) : (0 : ℚ) < 10 ^ k := zpow_pos (by norm_num) k

theorem Decimal.value_nonneg (d : Decimal) : 0 ≤ d.value :=
  mul_nonneg d.digits.cast_nonneg (ten_zpow_pos _).le

/-- How many digits there are bounds a number from both sides. -/
theorem digits_bounds (hn : n ≠ 0) :
    10 ^ ((Nat.toDigits 10 n).length - 1) ≤ n ∧ n < 10 ^ (Nat.toDigits 10 n).length := by
  have hlength : 0 < (Nat.toDigits 10 n).length := Nat.length_toDigits_pos
  refine ⟨?_, (Nat.length_toDigits_le_iff (by decide) hlength).mp (le_refl _)⟩
  rcases Nat.eq_or_lt_of_le hlength with hone | hmore
  · rw [← hone]
    exact Nat.pos_of_ne_zero hn
  · refine not_lt.mp fun hlt => ?_
    have := (Nat.length_toDigits_le_iff (by decide) (by omega)).mpr hlt
    omega

/-- The places that a decimal starts at. -/
def Decimal.places (d : Decimal) : ℤ := d.exponent + (Nat.toDigits 10 d.digits).length

theorem Decimal.value_bounds {d : Decimal} (h : d.digits ≠ 0) :
    (10 : ℚ) ^ (d.places - 1) ≤ d.value ∧ d.value < 10 ^ d.places := by
  have hlength : 0 < (Nat.toDigits 10 d.digits).length := Nat.length_toDigits_pos
  have hten : (10 : ℚ) ≠ 0 := by norm_num
  obtain ⟨hlow, hhigh⟩ := digits_bounds h
  have hexponent := ten_zpow_pos d.exponent
  constructor
  · have hsplit : d.places - 1 = ((Nat.toDigits 10 d.digits).length - 1 : ℕ) + d.exponent := by
      rw [places]
      omega
    rw [hsplit, zpow_add₀ hten, zpow_natCast]
    exact mul_le_mul_of_nonneg_right (by exact_mod_cast hlow) hexponent.le
  · rw [places, add_comm, zpow_add₀ hten, zpow_natCast]
    exact mul_lt_mul_of_pos_right (by exact_mod_cast hhigh) hexponent

/-- A decimal is read to the double nearest to it, also where its places settle that. -/
theorem Decimal.rounds_toFloat (d : Decimal) : Rounds d.value d.toFloat := by
  have htoFloat : d.toFloat = if d.digits = 0 || d.places < -400 then 0
      else if 400 < d.places then 1 / 0
      else Float.ofScientific d.digits (d.exponent < 0) d.exponent.natAbs := rfl
  rw [htoFloat]
  split
  next h =>
    refine Rounds.tiny (s := .positive) ?_ rfl
    rw [abs_of_nonneg d.value_nonneg]
    by_cases hzero : d.digits = 0
    · rw [value, hzero, Nat.cast_zero, zero_mul]
      exact (zpow_two_pos _).le
    · have hplaces : d.places < -400 := by simpa [hzero] using h
      calc
        d.value ≤ 10 ^ d.places := (value_bounds hzero).2.le
        _ ≤ 10 ^ (-400 : ℤ) := zpow_le_zpow_right₀ (by norm_num) hplaces.le
        _ ≤ 2 ^ (3 * -400 : ℤ) := ten_zpow_le (by decide)
        _ ≤ 2 ^ (-1076 : ℤ) := zpow_le_zpow_right₀ one_le_two (by decide)
  next h =>
  have hne : d.digits ≠ 0 := fun hzero => h (by simp [hzero])
  split
  next hlarge =>
    refine Rounds.huge (s := .positive) ?_ rfl
    rw [abs_of_nonneg d.value_nonneg]
    calc
      (2 : ℚ) ^ (1025 : ℤ) ≤ 2 ^ (3 * 400 : ℤ) := zpow_le_zpow_right₀ one_le_two (by decide)
      _ ≤ 10 ^ (400 : ℤ) := two_zpow_le (by decide)
      _ ≤ 10 ^ (d.places - 1) := zpow_le_zpow_right₀ (by norm_num) (by omega)
      _ ≤ d.value := (value_bounds hne).1
  next =>
    have h := rounds_ofScientific' d.digits (d.exponent < 0) d.exponent.natAbs
    have hexponent : (if decide (d.exponent < 0) = true then -(d.exponent.natAbs : ℤ) else d.exponent.natAbs) =
        d.exponent := by
      simp only [decide_eq_true_eq]
      split <;> omega
    rwa [hexponent] at h

end FormulaGraph
