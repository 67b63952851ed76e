import FormulaGraph.Proofs.Doubles

/-! Finite doubles are told apart by what they stand for, and zeros by their signs. A factor of one and a divisor
of one change nothing. -/

namespace FormulaGraph

open Float.Model (UnpackedFloat)
open Float.Model.UnpackedFloat

variable {m m' : ℕ} {e e' : ℤ} {r r' : UnpackedFloat} {bits : BitVec 64} {x y : Float}

/-! Fields. -/

/-- The sign, the exponent field and the fraction that a finite number is stored with. -/
def storedFields : UnpackedFloat → Sign × ℕ × ℕ
  | .finite s m e _ => if m < 2 ^ 52 then (s, 0, m) else (s, (e + 1075).toNat, m - 2 ^ 52)
  | .zero s => (s, 0, 0)
  | _ => (.positive, 2047, 0)

theorem storedFields_unpack (h : (unpack .binary64 bits).isFinite = true) :
    storedFields (unpack .binary64 bits) = (.ofBitVec (@unpackSign .binary64 bits),
      (@unpackExponent .binary64 bits).toNat, (@unpackMantissa .binary64 bits).toNat) := by
  have hm : (@unpackMantissa .binary64 bits).toNat < 2 ^ 52 := BitVec.isLt _
  rw [unpack] at h ⊢
  split at h
  · split at h <;> cases h
  next hinf =>
    rw [if_neg hinf]
    split
    next hzero =>
      rw [hzero]
      split
      next hnone =>
        rw [hnone]
        rfl
      next => exact if_pos hm
    next hzero =>
      have hexponent : ((@unpackExponent .binary64 bits).toNat - 1075 + 1075 : ℤ).toNat =
          (@unpackExponent .binary64 bits).toNat := by omega
      have himplicit := toNat_implicit (@unpackMantissa .binary64 bits)
      refine (if_neg (himplicit.ge.trans' (Nat.le_add_right _ _)).not_gt).trans ?_
      rw [himplicit, Nat.add_sub_cancel_left]
      exact congrArg (fun field => (_, field, _)) hexponent

theorem ofBitVec_inj {b b' : BitVec 1} (h : Sign.ofBitVec b = Sign.ofBitVec b') : b = b' := by
  obtain rfl | rfl := b.eq_zero_or_eq_one <;> obtain rfl | rfl := b'.eq_zero_or_eq_one <;> first | rfl | cases h

theorem unpacked_inj (hx : x.isFinite = true) (hy : y.isFinite = true) (h : unpacked x = unpacked y) : x = y := by
  have hfields := (storedFields_unpack hx).symm.trans ((congrArg storedFields h).trans (storedFields_unpack hy))
  rw [Prod.mk.injEq, Prod.mk.injEq] at hfields
  obtain ⟨hsign, hexponent, hmantissa⟩ := hfields
  obtain ⟨hm, he, hs⟩ := toNat_fields x.toModel.toBits.toBitVec
  obtain ⟨hm', he', hs'⟩ := toNat_fields y.toModel.toBits.toBitVec
  have hlt : x.toBits.toNat < 2 ^ 64 := UInt64.toNat_lt _
  have hlt' : y.toBits.toNat < 2 ^ 64 := UInt64.toNat_lt _
  have hbits (z : Float) : z.toModel.toBits.toBitVec.toNat = z.toBits.toNat := rfl
  rw [ofBitVec_inj hsign, hs', hbits, hbits] at hs
  rw [hexponent, he', hbits, hbits] at he
  rw [hmantissa, hm', hbits, hbits] at hm
  exact Float.toBits_inj.mp (UInt64.toNat_inj.mp (by omega))

/-! Values. -/

theorem Canonical.eq_of_eq (h : Canonical m e) (h' : Canonical m' e') (heq : (m : ℚ) * 2 ^ e = m' * 2 ^ e') :
    m = m' ∧ e = e' := by
  have hcompare := (h.compare_eq h').trans (compare_eq_iff_eq.mpr heq)
  rw [Ordering.then_eq_eq, compare_eq_iff_eq, compare_eq_iff_eq] at hcompare
  exact hcompare.symm

theorem Rounded.eq_of_rationalOf (h : Rounded r) (h' : Rounded r') (heq : rationalOf r = rationalOf r')
    (hne : rationalOf r ≠ 0) : r = r' := by
  cases h with
  | zero s => exact absurd rfl hne
  | @finite s m e hpos hc =>
    cases h' with
    | zero s' => exact absurd heq hne
    | @finite s' m' e' hpos' hc' =>
      have hvalues : (m : ℚ) * 2 ^ e = m' * 2 ^ e' := by
        rw [← abs_rationalOf_finite s hpos, heq, abs_rationalOf_finite]
      obtain ⟨rfl, rfl⟩ := hc.eq_of_eq hc' hvalues
      have hmagnitude := hc.magnitude_pos
      cases s <;> cases s' <;> simp only [rationalOf, withSign] at heq <;> first | rfl | linarith

/-- Doubles that stand for the same number are the same, if zeros among them have the same sign. -/
theorem eq_of_rational (hx : x.isFinite = true) (hy : y.isFinite = true) (h : rational x = rational y)
    (hzero : ∀ s, unpacked x = .zero s → unpacked y = .zero s) : x = y := by
  refine unpacked_inj hx hy ?_
  obtain ⟨s, hs⟩ | ⟨s, m, e, hc, -, hm⟩ := unpacked_cases hx
  · rw [hs, hzero s hs]
  · refine (rounded_unpacked hx).eq_of_rationalOf (rounded_unpacked hy) h (abs_pos.mp ?_)
    rw [hm, abs_rationalOf_finite]
    exact hc.magnitude_pos

/-! Factors of one. -/

theorem rational_mul_one (hx : x.isFinite = true) : (x * 1).isFinite = true ∧ rational (x * 1) = rational x := by
  have h := rounds_mul hx rational_one.1
  rw [rational_one.2, mul_one] at h
  exact h.exact hx rfl

theorem rational_div_one (hx : x.isFinite = true) : (x / 1).isFinite = true ∧ rational (x / 1) = rational x := by
  have h := rounds_div hx rational_one.1 (by rw [rational_one.2]; norm_num)
  rw [rational_one.2, div_one] at h
  exact h.exact hx rfl

theorem unpacked_mul (x y : Float) :
    unpacked (x * y) = unpack .binary64 (pack .binary64 (mul .binary64 (unpacked x) (unpacked y))) := rfl

theorem unpacked_div (x y : Float) :
    unpacked (x / y) = unpack .binary64 (pack .binary64 (div .binary64 (unpacked x) (unpacked y))) := rfl

theorem mul_one_eq (hx : x.isFinite = true) : x * 1 = x := by
  obtain ⟨hfinite, hvalue⟩ := rational_mul_one hx
  refine (eq_of_rational hx hfinite hvalue.symm fun s hs => ?_).symm
  rw [unpacked_mul, hs]
  cases s <;> rfl

theorem div_one_eq (hx : x.isFinite = true) : x / 1 = x := by
  obtain ⟨hfinite, hvalue⟩ := rational_div_one hx
  refine (eq_of_rational hx hfinite hvalue.symm fun s hs => ?_).symm
  rw [unpacked_div, hs]
  cases s <;> rfl

end FormulaGraph
