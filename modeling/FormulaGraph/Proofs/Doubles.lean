import FormulaGraph.Proofs.Calculating

/-! Doubles as rational numbers. A calculation with finite doubles is the exact one, rounded, unless that is
too large. -/

namespace FormulaGraph

open Float.Model (Format UnpackedFloat)
open Float.Model.UnpackedFloat

variable {m : ℕ} {e : ℤ} {s : Sign} {r : UnpackedFloat}

/-! Packing. -/

theorem toNat_implicit (mantissa : BitVec 52) : (1#1 ++ mantissa).toNat = 2 ^ 52 + mantissa.toNat := by
  rw [BitVec.toNat_append, ← Nat.shiftLeft_add_eq_or_of_lt mantissa.isLt]
  rfl

theorem unpack_pack_zero (s : Sign) : unpack .binary64 (pack .binary64 (.zero s)) = .zero s := by
  cases s <;> rfl

theorem unpack_packedInfinity (s : Sign) : unpack .binary64 (packedInfinity .binary64 s) = .infinity s := by
  cases s <;> rfl

theorem unpack_pack_overflow (hpos : 0 < m) (he : 971 < e) :
    unpack .binary64 (pack .binary64 (.finite s m e hpos)) = .infinity s := by
  have hover : 2 ^ 11 ≤ (e + 1023 + 52).toNat + 1 := by omega
  rw [pack]
  exact (congrArg (unpack .binary64) (if_pos hover)).trans (unpack_packedInfinity s)

theorem finite_congr {m' : ℕ} {e' : ℤ} {hpos : 0 < m} {hpos' : 0 < m'} (hm : m = m') (he : e = e') :
    UnpackedFloat.finite s m e hpos = .finite s m' e' hpos' := by
  subst hm he
  rfl

theorem unpack_normal {exponent : BitVec 11} {mantissa : BitVec 52} (hinf : exponent ≠ -1#11)
    (hzero : exponent ≠ 0#11) :
    unpack .binary64 (packComponents .binary64 s exponent mantissa) =
      .finite s (2 ^ 52 + mantissa.toNat) (exponent.toNat - 1075) (by omega) := by
  rw [unpack]
  simp only [unpackMantissa_packComponents, unpackExponent_packComponents, unpackSign_packComponents,
    Sign.ofBitVec_toBitVec]
  rw [if_neg hinf, if_neg hzero]
  exact finite_congr (toNat_implicit mantissa) rfl

theorem unpack_subnormal {mantissa : BitVec 52} (hpos : 0 < mantissa.toNat) :
    unpack .binary64 (packComponents .binary64 s 0#11 mantissa) = .finite s mantissa.toNat (-1074) hpos := by
  have hzero : mantissa ≠ 0#52 := by
    rintro rfl
    cases hpos
  rw [unpack]
  simp only [unpackMantissa_packComponents, unpackExponent_packComponents, unpackSign_packComponents,
    Sign.ofBitVec_toBitVec]
  rw [if_neg (by decide), if_pos trivial, dif_neg hzero]
  exact finite_congr rfl (by decide)

theorem unpack_pack_finite (h : Canonical m e) (he : e ≤ 971) :
    unpack .binary64 (pack .binary64 (.finite s m e h.pos)) = .finite s m e h.pos := by
  have hleast := h.least_le
  have hlt := h.lt
  have hexponent : (BitVec.ofNat 11 (e + 1023 + 52).toNat).toNat = (e + 1075).toNat := by
    rw [BitVec.toNat_ofNat]
    omega
  have hmantissa : (BitVec.ofNat 52 m).toNat = m % 2 ^ 52 := BitVec.toNat_ofNat ..
  by_cases hnormal : m.log2 + 1 = 53
  · have hfull : 2 ^ 52 ≤ m := (Nat.le_log2 h.pos.ne').mp (by omega)
    have hpack : pack .binary64 (.finite s m e h.pos) =
        packComponents .binary64 s (BitVec.ofNat 11 (e + 1023 + 52).toNat) (BitVec.ofNat 52 m) := by
      rw [pack]
      exact (if_neg (by omega : ¬ 2 ^ 11 ≤ (e + 1023 + 52).toNat + 1)).trans (if_pos hnormal)
    rw [hpack, unpack_normal]
    · exact finite_congr (by omega) (by omega)
    · refine fun heq => ?_
      have : (e + 1075).toNat = 2047 := hexponent ▸ congrArg BitVec.toNat heq
      omega
    · refine fun heq => ?_
      have : (e + 1075).toNat = 0 := hexponent ▸ congrArg BitVec.toNat heq
      omega
  · have hsmall : m < 2 ^ 52 := by
      by_contra hge
      have := (Nat.le_log2 h.pos.ne').mpr (not_lt.mp hge)
      have := (Nat.log2_lt h.pos.ne').mpr hlt
      omega
    obtain rfl : e = -1074 := h.full.resolve_right (not_le.mpr hsmall)
    have hpack : pack .binary64 (.finite s m (-1074) h.pos) =
        packComponents .binary64 s 0#11 (BitVec.ofNat 52 m) := by
      rw [pack]
      exact (if_neg (by decide : ¬ 2 ^ 11 ≤ (-1074 + 1023 + 52 : ℤ).toNat + 1)).trans (if_neg hnormal)
    rw [Nat.mod_eq_of_lt hsmall] at hmantissa
    rw [hpack, unpack_subnormal (by rw [hmantissa]; exact h.pos)]
    exact finite_congr hmantissa rfl

/-! What doubles stand for. -/

def unpacked (x : Float) : UnpackedFloat := x.toModel.unpack

/-- The number that a finite double is. -/
def rational (x : Float) : ℚ := rationalOf (unpacked x)

theorem unpack_cases (bits : BitVec 64) :
    (unpack .binary64 bits).isFinite = false ∨ (∃ s, unpack .binary64 bits = .zero s) ∨
      ∃ s m e, ∃ h : Canonical m e, e ≤ 971 ∧ unpack .binary64 bits = .finite s m e h.pos := by
  have hm : (@unpackMantissa .binary64 bits).toNat < 2 ^ 52 := BitVec.isLt _
  have he : (@unpackExponent .binary64 bits).toNat < 2 ^ 11 := BitVec.isLt _
  rw [unpack]
  split
  · left
    split <;> rfl
  next hinf =>
    have hlt : (@unpackExponent .binary64 bits).toNat ≠ 2047 := fun heq =>
      hinf (BitVec.eq_of_toNat_eq heq)
    split
    next hzero =>
      split
      · exact .inr (.inl ⟨_, rfl⟩)
      next hne =>
        have hpos : 0 < (@unpackMantissa .binary64 bits).toNat :=
          Nat.pos_of_ne_zero fun heq => hne (BitVec.eq_of_toNat_eq heq)
        refine .inr (.inr ⟨_, _, -1074, ⟨hpos, ?_, le_refl _, .inl rfl⟩, by decide, finite_congr rfl ?_⟩)
        · omega
        · rw [hzero]
          decide
    next hzero =>
      have hpos : 0 < (@unpackExponent .binary64 bits).toNat :=
        Nat.pos_of_ne_zero fun heq => hzero (BitVec.eq_of_toNat_eq heq)
      refine .inr (.inr ⟨_, 2 ^ 52 + (@unpackMantissa .binary64 bits).toNat,
        (@unpackExponent .binary64 bits).toNat - 1075, ⟨?_, ?_, ?_, .inr ?_⟩, ?_,
        finite_congr (toNat_implicit _) rfl⟩) <;> omega

theorem isFinite_eq (x : Float) : x.isFinite = (unpacked x).isFinite := rfl

theorem unpacked_cases {x : Float} (hx : x.isFinite = true) :
    (∃ s, unpacked x = .zero s) ∨ ∃ s m e, ∃ h : Canonical m e, e ≤ 971 ∧ unpacked x = .finite s m e h.pos := by
  refine (unpack_cases x.toModel.toBits.toBitVec).resolve_left fun h => ?_
  rw [isFinite_eq, unpacked, Float.Model.unpack, h] at hx
  cases hx

theorem rounded_unpacked {x : Float} (hx : x.isFinite = true) : Rounded (unpacked x) := by
  rcases unpacked_cases hx with ⟨s, h⟩ | ⟨s, m, e, hc, -, h⟩ <;> rw [h]
  · exact .zero s
  · exact .finite s hc.pos hc

theorem Canonical.lt_of_le (h : Canonical m e) (he : e ≤ 971) : (m : ℚ) * 2 ^ e < 2 ^ (1024 : ℤ) := by
  have hm : (m : ℚ) < 2 ^ (53 : ℤ) := by exact_mod_cast h.lt
  calc
    (m : ℚ) * 2 ^ e < 2 ^ (53 : ℤ) * 2 ^ e := mul_lt_mul_of_pos_right hm (zpow_two_pos e)
    _ = 2 ^ (53 + e) := (zpow_add₀ two_ne_zero _ _).symm
    _ ≤ 2 ^ (1024 : ℤ) := zpow_le_zpow_right₀ one_le_two (by omega)

theorem Canonical.le_of_lt (h : Canonical m e) (he : 971 < e) : 2 ^ (1024 : ℤ) ≤ (m : ℚ) * 2 ^ e := by
  have hm : (2 : ℚ) ^ (52 : ℤ) ≤ m := by exact_mod_cast h.full.resolve_left (by omega)
  calc
    (2 : ℚ) ^ (1024 : ℤ) ≤ 2 ^ (52 + e) := zpow_le_zpow_right₀ one_le_two (by omega)
    _ = 2 ^ (52 : ℤ) * 2 ^ e := zpow_add₀ two_ne_zero _ _
    _ ≤ m * 2 ^ e := mul_le_mul_of_nonneg_right hm (zpow_two_pos e).le

theorem abs_rational_lt {x : Float} (hx : x.isFinite = true) : |rational x| < 2 ^ (1024 : ℤ) := by
  rw [rational]
  rcases unpacked_cases hx with ⟨s, h⟩ | ⟨s, m, e, hc, he, h⟩ <;> rw [h]
  · rw [rationalOf_zero, abs_zero]
    exact zpow_two_pos _
  · rw [abs_rationalOf_finite]
    exact hc.lt_of_le he

/-- The double made of an unpacked one. -/
def packed (r : UnpackedFloat) : Float := .ofModel (.pack r)

/-- Packing keeps what is not too large, and makes the rest infinite. -/
theorem unpacked_packed (h : Rounded r) :
    |rationalOf r| < 2 ^ (1024 : ℤ) ∧ unpacked (packed r) = r ∨
      2 ^ (1024 : ℤ) ≤ |rationalOf r| ∧ ∃ s, unpacked (packed r) = .infinity s := by
  cases h with
  | zero s =>
    rw [rationalOf_zero, abs_zero]
    exact .inl ⟨zpow_two_pos _, unpack_pack_zero s⟩
  | @finite s m e hpos hc =>
    rw [abs_rationalOf_finite]
    rcases le_or_gt e 971 with he | he
    · exact .inl ⟨hc.lt_of_le he, unpack_pack_finite hc he⟩
    · exact .inr ⟨hc.le_of_lt he, s, unpack_pack_overflow hpos he⟩

theorem Rounded.isFinite (h : Rounded r) : r.isFinite = true := by
  cases h <;> rfl

theorem Rounded.isNaN (h : Rounded r) : r.isNaN = false := by
  cases h <;> rfl

theorem rational_packed (h : Rounded r) (hlt : |rationalOf r| < 2 ^ (1024 : ℤ)) :
    (packed r).isFinite = true ∧ rational (packed r) = rationalOf r := by
  rcases unpacked_packed h with ⟨-, hr⟩ | ⟨hge, -⟩
  · exact ⟨by rw [isFinite_eq, hr, h.isFinite], by rw [rational, hr]⟩
  · exact absurd hlt hge.not_gt

/-- `x` is the double nearest to `q`, or infinite where that is too large. -/
structure Rounds (q : ℚ) (x : Float) : Prop where
  isNumber : x.isNaN = false
  isFinite_iff : x.isFinite = true ↔ |nearest q| < 2 ^ (1024 : ℤ)
  value : x.isFinite = true → rational x = nearest q

theorem Nearest.rounds {q : ℚ} (h : Nearest q r) : Rounds q (packed r) := by
  rcases unpacked_packed h.rounded with ⟨hlt, hr⟩ | ⟨hge, s, hr⟩ <;> rw [h.value] at *
  · refine ⟨?_, ?_, fun _ => by rw [rational, hr, h.value]⟩
    · change (unpacked (packed r)).isNaN = false
      rw [hr]
      exact h.rounded.isNaN
    · rw [isFinite_eq, hr]
      exact ⟨fun _ => hlt, fun _ => h.rounded.isFinite⟩
  · have hinfinite : ¬ (packed r).isFinite = true := by
      rw [isFinite_eq, hr]
      exact Bool.false_ne_true
    refine ⟨?_, ⟨fun h => absurd h hinfinite, fun h => absurd h hge.not_gt⟩, fun h => absurd h hinfinite⟩
    change (unpacked (packed r)).isNaN = false
    rw [hr]
    rfl

/-- The greatest double. -/
def greatest : ℚ := (2 ^ 53 - 1) * 2 ^ (971 : ℤ)

variable {q : ℚ} {x y : Float}

theorem Rounds.near (h : Rounds q x) (hx : x.isFinite = true) :
    |rational x - q| ≤ |q| / 2 ^ 53 + 2 ^ (-1075 : ℤ) := by
  rw [h.value hx]
  exact nearest_near q

theorem Rounds.exact (h : Rounds q x) (hy : y.isFinite = true) (heq : rational y = q) :
    x.isFinite = true ∧ rational x = q := by
  have hkept : nearest q = q := heq ▸ nearest_rationalOf (rounded_unpacked hy)
  have hx := h.isFinite_iff.mpr (by
    rw [hkept, ← heq]
    exact abs_rational_lt hy)
  exact ⟨hx, (h.value hx).trans hkept⟩

/-- There is one double nearest to a number. -/
theorem Rounds.congr (h : Rounds q x) (h' : Rounds q y) (hx : x.isFinite = true) :
    y.isFinite = true ∧ rational y = rational x := by
  have hy := h'.isFinite_iff.mpr (h.isFinite_iff.mp hx)
  exact ⟨hy, (h'.value hy).trans (h.value hx).symm⟩

theorem least_le : (2 : ℚ) ^ (-1075 : ℤ) ≤ 1 / 10 ^ 30 :=
  (zpow_le_zpow_right₀ one_le_two (by decide : (-1075 : ℤ) ≤ -100)).trans (by norm_num)

/-- What rounding adds stays small even if it is multiplied by the greatest double. -/
theorem abs_mul_least_le (hx : x.isFinite = true) : |rational x| * 2 ^ (-1075 : ℤ) ≤ 1 / 10 ^ 15 := by
  have hsmall : (2 : ℚ) ^ (1024 : ℤ) * 2 ^ (-1075 : ℤ) ≤ 1 / 10 ^ 15 := by
    rw [← zpow_add₀ two_ne_zero]
    norm_num
  exact (mul_le_mul_of_nonneg_right (abs_rational_lt hx).le (zpow_two_pos _).le).trans hsmall

theorem abs_nearest_le (q : ℚ) : |nearest q| ≤ |q| + |q| / 2 ^ 53 + 2 ^ (-1075 : ℤ) := by
  have htriangle := abs_add_le (nearest q - q) q
  rw [sub_add_cancel] at htriangle
  linarith [nearest_near q]

theorem Rounds.finite (h : Rounds q x) (hq : |q| ≤ greatest) : x.isFinite = true := by
  have hnearest := abs_nearest_le q
  have hleast := least_le
  have hunit : (2 : ℚ) ^ 53 ≤ 2 ^ (971 : ℤ) := by
    rw [← zpow_natCast]
    exact zpow_le_zpow_right₀ one_le_two (by decide)
  have hsplit : (2 : ℚ) ^ (1024 : ℤ) = 2 ^ 53 * 2 ^ (971 : ℤ) := by
    rw [← zpow_natCast, ← zpow_add₀ two_ne_zero]
    rfl
  rw [h.isFinite_iff, hsplit]
  rw [greatest] at hq
  clear hsplit
  generalize (2 : ℚ) ^ (971 : ℤ) = unit, (2 : ℚ) ^ (-1075 : ℤ) = least at *
  linarith

theorem Rounds.tiny (hq : |q| ≤ 2 ^ (-1076 : ℤ)) (hx : unpacked x = .zero s) : Rounds q x := by
  have hnearest := nearest_eq_zero hq
  refine ⟨?_, ?_, fun _ => ?_⟩
  · change (unpacked x).isNaN = false
    rw [hx]
    rfl
  · rw [isFinite_eq, hx, hnearest, abs_zero]
    exact ⟨fun _ => zpow_two_pos _, fun _ => rfl⟩
  · rw [rational, hx, rationalOf_zero, hnearest]

theorem Rounds.huge (hq : 2 ^ (1025 : ℤ) ≤ |q|) (hx : unpacked x = .infinity s) : Rounds q x := by
  have hinfinite : ¬ x.isFinite = true := by
    rw [isFinite_eq, hx]
    exact Bool.false_ne_true
  have hlarge : 2 ^ (1024 : ℤ) ≤ |nearest q| := by
    have htriangle := abs_sub_abs_le_abs_sub q (nearest q)
    rw [abs_sub_comm] at htriangle
    have hnear := nearest_near q
    have hleast := least_le
    have hdouble : (2 : ℚ) ^ (1025 : ℤ) = 2 ^ (1024 : ℤ) * 2 := zpow_add_one₀ two_ne_zero 1024
    have hone : (1 : ℚ) ≤ 2 ^ (1024 : ℤ) := one_le_zpow₀ one_le_two (by decide)
    rw [hdouble] at hq
    clear hdouble
    generalize (2 : ℚ) ^ (1024 : ℤ) = bound, (2 : ℚ) ^ (-1075 : ℤ) = least at *
    linarith
  refine ⟨?_, ⟨fun h => absurd h hinfinite, fun h => absurd h hlarge.not_gt⟩, fun h => absurd h hinfinite⟩
  change (unpacked x).isNaN = false
  rw [hx]
  rfl

/-! Fields. -/

/-- The number that a sign, an exponent field and the fraction behind it make. -/
def fieldsValue (s : Sign) (field fraction : ℕ) : ℚ :=
  withSign s (if field = 0 then fraction * 2 ^ (-1074 : ℤ) else (2 ^ 52 + fraction : ℕ) * 2 ^ (field - 1075 : ℤ))

theorem rationalOf_unpack {bits : BitVec 64} (h : (unpack .binary64 bits).isFinite = true) :
    rationalOf (unpack .binary64 bits) =
      fieldsValue (.ofBitVec (@unpackSign .binary64 bits))
        (@unpackExponent .binary64 bits).toNat (@unpackMantissa .binary64 bits).toNat := by
  rw [unpack] at h ⊢
  split at h
  · split at h <;> cases h
  next hinf =>
    rw [if_neg hinf, fieldsValue]
    split
    next hzero =>
      have hfield : (@unpackExponent .binary64 bits).toNat = 0 := congrArg BitVec.toNat hzero
      rw [if_pos hfield, hzero]
      split
      next hnone =>
        have hfraction : (@unpackMantissa .binary64 bits).toNat = 0 := congrArg BitVec.toNat hnone
        rw [hfraction, Nat.cast_zero, zero_mul, withSign_zero, rationalOf_zero]
      next => rfl
    next hzero =>
      have hfield : (@unpackExponent .binary64 bits).toNat ≠ 0 := fun heq =>
        hzero (BitVec.eq_of_toNat_eq heq)
      rw [if_neg hfield, ← toNat_implicit]
      rfl

theorem toNat_fields (bits : BitVec 64) :
    (@unpackMantissa .binary64 bits).toNat = bits.toNat % 2 ^ 52 ∧
      (@unpackExponent .binary64 bits).toNat = bits.toNat / 2 ^ 52 % 2 ^ 11 ∧
      (@unpackSign .binary64 bits).toNat = bits.toNat / 2 ^ 63 % 2 := by
  refine ⟨?_, ?_, ?_⟩
  · simp [unpackMantissa]
  · simp [unpackExponent, Nat.shiftRight_eq_div_pow]
  · simp [unpackSign, Nat.shiftRight_eq_div_pow]

theorem rational_eq_fields {x : Float} (hx : x.isFinite = true) :
    rational x = fieldsValue (if x.toBits.toNat < 2 ^ 63 then .positive else .negative)
      (x.toBits.toNat / 2 ^ 52 % 2 ^ 11) (x.toBits.toNat % 2 ^ 52) := by
  obtain ⟨hmantissa, hexponent, hsign⟩ := toNat_fields x.toModel.toBits.toBitVec
  have hlt : x.toBits.toNat < 2 ^ 64 := UInt64.toNat_lt _
  have hbits : x.toModel.toBits.toBitVec.toNat = x.toBits.toNat := rfl
  rw [hbits] at hmantissa hexponent hsign
  rw [rational, unpacked, Float.Model.unpack, rationalOf_unpack hx, hmantissa, hexponent, Sign.ofBitVec]
  congr 1
  refine if_congr ⟨fun h => ?_, fun h => BitVec.eq_of_toNat_eq ?_⟩ rfl rfl
  · have : x.toBits.toNat / 2 ^ 63 % 2 = 0 := hsign ▸ congrArg BitVec.toNat h
    omega
  · rw [hsign, BitVec.toNat_zero]
    omega

/-! Calculations. -/

theorem rounds_add (hx : x.isFinite = true) (hy : y.isFinite = true) :
    Rounds (rational x + rational y) (x + y) :=
  (nearest_add (rounded_unpacked hx) (rounded_unpacked hy)).rounds

theorem rounds_sub (hx : x.isFinite = true) (hy : y.isFinite = true) :
    Rounds (rational x - rational y) (x - y) :=
  (nearest_sub (rounded_unpacked hx) (rounded_unpacked hy)).rounds

theorem rounds_mul (hx : x.isFinite = true) (hy : y.isFinite = true) :
    Rounds (rational x * rational y) (x * y) :=
  (nearest_mul (rounded_unpacked hx) (rounded_unpacked hy)).rounds

theorem rounds_div (hx : x.isFinite = true) (hy : y.isFinite = true) (hne : rational y ≠ 0) :
    Rounds (rational x / rational y) (x / y) :=
  (nearest_div (rounded_unpacked hx) (rounded_unpacked hy) hne).rounds

/-! Signs. -/

theorem unpacked_neg (x : Float) : unpacked (-x) = unpack .binary64 (pack .binary64 (unpacked x).neg) := rfl

theorem unpacked_abs (x : Float) : unpacked x.abs = unpack .binary64 (pack .binary64 (unpacked x).abs) := rfl

theorem rational_neg (hx : x.isFinite = true) : (-x).isFinite = true ∧ rational (-x) = -rational x := by
  rw [isFinite_eq, rational, rational, unpacked_neg]
  rcases unpacked_cases hx with ⟨s, h⟩ | ⟨s, m, e, hc, he, h⟩ <;> rw [h, UnpackedFloat.neg]
  · rw [unpack_pack_zero, rationalOf_zero, rationalOf_zero]
    exact ⟨rfl, neg_zero.symm⟩
  · rw [unpack_pack_finite hc he]
    exact ⟨rfl, rationalOf_neg s hc.pos⟩

theorem rational_abs (hx : x.isFinite = true) : x.abs.isFinite = true ∧ rational x.abs = |rational x| := by
  rw [isFinite_eq, rational, rational, unpacked_abs]
  rcases unpacked_cases hx with ⟨s, h⟩ | ⟨s, m, e, hc, he, h⟩ <;> rw [h, UnpackedFloat.abs]
  · rw [unpack_pack_zero, rationalOf_zero, rationalOf_zero]
    exact ⟨rfl, abs_zero.symm⟩
  · rw [unpack_pack_finite hc he, abs_rationalOf_finite]
    exact ⟨rfl, rfl⟩

/-! Comparing. -/

theorem lt_iff_compare : x < y ↔ (unpacked x).compare (unpacked y) = some .lt := by
  change decide (((unpacked x).compare (unpacked y) == some Ordering.lt) = true) = true ↔ _
  simp

section

variable (hx : x.isFinite = true) (hy : y.isFinite = true)
include hx hy

theorem compare_unpacked : (unpacked x).compare (unpacked y) = some (compare (rational x) (rational y)) :=
  compare_eq (rounded_unpacked hx) (rounded_unpacked hy)

theorem lt_iff : x < y ↔ rational x < rational y := by
  rw [lt_iff_compare, compare_unpacked hx hy, Option.some_inj, compare_lt_iff_lt]

theorem le_iff : x ≤ y ↔ rational x ≤ rational y := by
  change decide (((unpacked x).compare (unpacked y)).any Ordering.isLE = true) = true ↔ _
  rw [decide_eq_true_eq, compare_unpacked hx hy, Option.any_some, Ordering.isLE_iff_ne_gt]
  exact not_congr compare_gt_iff_gt |>.trans not_lt

theorem beq_iff : (x == y) = true ↔ rational x = rational y := by
  change ((unpacked x).compare (unpacked y) == some .eq) = true ↔ _
  rw [beq_iff_eq, compare_unpacked hx hy, Option.some_inj, compare_eq_iff_eq]

end

theorem abs_rational_le (hx : x.isFinite = true) : |rational x| ≤ greatest := by
  rw [rational]
  rcases unpacked_cases hx with ⟨s, h⟩ | ⟨s, m, e, hc, he, h⟩ <;> rw [h]
  · rw [rationalOf_zero, abs_zero, greatest]
    exact mul_nonneg (by norm_num) (zpow_two_pos _).le
  · have hm : (m : ℚ) ≤ 2 ^ 53 - 1 := by
      have := hc.lt
      rw [le_sub_iff_add_le]
      exact_mod_cast hc.lt
    rw [abs_rationalOf_finite, greatest]
    exact mul_le_mul hm (zpow_le_zpow_right₀ one_le_two he) (zpow_two_pos e).le (by norm_num)

theorem one_le_greatest : 1 ≤ greatest := by
  rw [greatest]
  have hunit : (1 : ℚ) ≤ 2 ^ (971 : ℤ) := one_le_zpow₀ one_le_two (by decide)
  generalize (2 : ℚ) ^ (971 : ℤ) = unit at *
  linarith

theorem rational_zero : (0 : Float).isFinite = true ∧ rational 0 = 0 := ⟨rfl, rfl⟩

theorem rational_one : (1 : Float).isFinite = true ∧ rational 1 = 1 := by
  have hone : unpacked 1 = .finite .positive (2 ^ 52) (-52) (by decide) := rfl
  refine ⟨rfl, ?_⟩
  rw [rational, hone, rationalOf, withSign]
  norm_num

/-! What is finite. -/

theorem unpack_pack_nan : unpack .binary64 (pack .binary64 .notANumber) = .notANumber := rfl

theorem unpack_pack_infinity (s : Sign) : unpack .binary64 (pack .binary64 (.infinity s)) = .infinity s :=
  unpack_packedInfinity s

theorem isFinite_of_abs_compare {o : Ordering} (h : (unpacked x.abs).compare (unpacked y) = some o) (ho : o.isLE)
    (hy : y.isFinite = true) : x.isFinite = true := by
  rw [unpacked_abs] at h
  rw [isFinite_eq]
  cases hx : unpacked x with
  | zero | finite => rfl
  | notANumber =>
    rw [hx, UnpackedFloat.abs, unpack_pack_nan] at h
    cases h
  | infinity s =>
    rw [hx, UnpackedFloat.abs, unpack_pack_infinity] at h
    rcases unpacked_cases hy with ⟨s, hy⟩ | ⟨s, m, e, hc, -, hy⟩ <;> rw [hy] at h <;> cases h <;> cases ho

/-- Only what is finite is as small as that. -/
theorem isFinite_of_lt (h : x.abs < y) (hy : y.isFinite = true) : x.isFinite = true :=
  isFinite_of_abs_compare (lt_iff_compare.mp h) rfl hy

theorem isFinite_of_le (h : x.abs ≤ y) (hy : y.isFinite = true) : x.isFinite = true := by
  have hle : ((unpacked x.abs).compare (unpacked y)).any Ordering.isLE = true := of_decide_eq_true h
  obtain ⟨o, ho, hle⟩ := (Option.any_eq_true _ _).mp hle
  exact isFinite_of_abs_compare ho hle hy

theorem isFinite_of_sub (h : (x - y).isFinite = true) (hy : y.isFinite = true) : x.isFinite = true := by
  have hsub : unpacked (x - y) = unpack .binary64 (pack .binary64 (sub .binary64 (unpacked x) (unpacked y))) := rfl
  rw [isFinite_eq, hsub] at h
  rw [isFinite_eq]
  cases hx : unpacked x with
  | zero | finite => rfl
  | notANumber =>
    rw [hx, sub, unpack_pack_nan] at h
    cases h
  | infinity s =>
    have hinfinite : sub .binary64 (.infinity s) (unpacked y) = .infinity s := by
      rcases unpacked_cases hy with ⟨s', hy⟩ | ⟨s', m, e, hc, -, hy⟩ <;> rw [hy] <;> rfl
    rw [hx, hinfinite, unpack_pack_infinity] at h
    cases h

theorem isFinite_of_beq (h : (x == y) = true) (hy : y.isFinite = true) : x.isFinite = true := by
  change ((unpacked x).compare (unpacked y) == some .eq) = true at h
  rw [beq_iff_eq] at h
  rw [isFinite_eq]
  cases hx : unpacked x with
  | zero | finite => rfl
  | notANumber =>
    rw [hx] at h
    cases h
  | infinity s =>
    rcases unpacked_cases hy with ⟨s', hy⟩ | ⟨s', m, e, hc, -, hy⟩ <;> rw [hx, hy] at h <;> cases s <;> cases h

theorem isFinite_iff : x.isFinite = true ↔ x.isNaN = false ∧ x.isInf = false := by
  change (unpacked x).isFinite = true ↔ (unpacked x).isNaN = false ∧ (unpacked x).isInf = false
  cases unpacked x <;> simp [UnpackedFloat.isFinite, UnpackedFloat.isNaN, UnpackedFloat.isInf]

theorem isNaN_of_isFinite (h : x.isFinite = true) : x.isNaN = false := (isFinite_iff.mp h).1

theorem isInf_of_not_isFinite (hnumber : x.isNaN = false) (hx : x.isFinite ≠ true) : x.isInf = true := by
  by_contra hinf
  exact hx (isFinite_iff.mpr ⟨hnumber, Bool.eq_false_iff.mpr hinf⟩)

theorem fields_of_isInf {bits : BitVec 64} (h : (unpack .binary64 bits).isInf = true) :
    (@unpackExponent .binary64 bits).toNat = 2047 ∧ (@unpackMantissa .binary64 bits).toNat = 0 := by
  rw [unpack] at h
  split at h
  next hexponent =>
    split at h
    next hmantissa => exact ⟨congrArg BitVec.toNat hexponent, congrArg BitVec.toNat hmantissa⟩
    next => cases h
  next =>
    split at h
    · split at h <;> cases h
    · cases h

/-- There are two infinite doubles. -/
theorem eq_infinity (h : x.isInf = true) : x = 1 / 0 ∨ x = -1 / 0 := by
  obtain ⟨hmantissa, hexponent, -⟩ := toNat_fields x.toModel.toBits.toBitVec
  obtain ⟨hfield, hfraction⟩ := fields_of_isInf h
  have hlt : x.toBits.toNat < 2 ^ 64 := UInt64.toNat_lt _
  have hbits : x.toModel.toBits.toBitVec.toNat = x.toBits.toNat := rfl
  rw [hbits] at hmantissa hexponent
  have hpositive : (1 / 0 : Float).toBits.toNat = 2047 * 2 ^ 52 := by decide
  have hnegative : (-1 / 0 : Float).toBits.toNat = 2 ^ 63 + 2047 * 2 ^ 52 := by decide
  have hcases : x.toBits.toNat = 2047 * 2 ^ 52 ∨ x.toBits.toNat = 2 ^ 63 + 2047 * 2 ^ 52 := by omega
  have hsame {y : Float} (h : x.toBits.toNat = y.toBits.toNat) : x = y := Float.toBits_inj.mp (UInt64.toNat_inj.mp h)
  exact hcases.imp (fun h => hsame (h.trans hpositive.symm)) fun h => hsame (h.trans hnegative.symm)

end FormulaGraph
