import FormulaGraph.Proofs.Decimals
import FormulaGraph.Proofs.Lexemes

/-! Numbers as they are written and read. -/

namespace FormulaGraph

variable {c : Char} {l whole fraction : List Char} {d : Decimal} {n : ℕ} {x y : Float}

/-! Reading. -/

theorem toLower_of_isDigit (h : c.isDigit = true) : c.toLower = c := by
  have hbounds := Char.bounds_of_isDigit h
  have hlower : ¬ (c.val ≥ 'A'.val ∧ c.val ≤ 'Z'.val) := fun hupper => by
    have : 65 ≤ c.toNat := UInt32.le_iff_toNat_le.mp hupper.1
    omega
  exact dif_neg hlower

/-- Words for what is no finite number start with a letter. -/
theorem Numeral.ne_word (h : Numeral l) (word : String) (hword : ∃ c rest, word.toList = c :: rest ∧ c.isAlpha = true) :
    String.ofList (l.map Char.toLower) ≠ word := by
  rintro rfl
  obtain ⟨c, rest, hlist, halpha⟩ := hword
  rw [String.toList_ofList] at hlist
  have hchar : ∀ d : Char, d.isDigit = true → d ≠ c := by
    rintro d hd rfl
    have := Char.bounds_of_isDigit hd
    have := Char.bounds_of_isAlpha halpha
    omega
  rcases h.start with ⟨d, more, rfl, hd⟩ | ⟨d, more, rfl, -⟩ <;>
    rw [List.map_cons, List.cons.injEq] at hlist
  · exact hchar d hd ((toLower_of_isDigit hd).symm.trans hlist.1)
  · rw [← hlist.1] at halpha
    cases halpha

theorem not_isExponentMark_of_isDigit (h : c.isDigit = true) : isExponentMark c = false := by
  refine Bool.eq_false_iff.mpr fun hmark => ?_
  rcases Bool.or_eq_true_iff.mp hmark with hc | hc <;> rw [beq_iff_eq.mp hc] at h <;> cases h

theorem Numeral.readNumber?_eq (h : Numeral l) : readNumber? l = readUnsigned? l := by
  rcases h.start with ⟨c, rest, rfl, hc⟩ | ⟨c, rest, rfl, hc⟩
  · rw [FormulaGraph.readNumber?.eq_3]
    all_goals
      rintro rest' heq
      rw [List.cons.injEq] at heq
      rw [heq.1] at hc
      cases hc
  · rfl

/-- Numerals are read as plain decimals. -/
theorem Numeral.readNumber? (h : Numeral l) : readNumber? l = (readPlain? l).map Decimal.toFloat := by
  have hplain : ∀ c ∈ l, (!isExponentMark c) = true := fun c hc => by
    rcases h.chars c hc with hc | rfl
    · rw [not_isExponentMark_of_isDigit hc]
      rfl
    · rfl
  rw [h.readNumber?_eq, readUnsigned?]
  simp only [h.ne_word "inf" ⟨_, _, rfl, rfl⟩, h.ne_word "infinity" ⟨_, _, rfl, rfl⟩,
    h.ne_word "nan" ⟨_, _, rfl, rfl⟩, if_false]
  rw [List.takeWhile_eq_self_iff.mpr hplain, List.dropWhile_eq_nil_iff.mpr hplain]
  cases readPlain? l <;> rfl

theorem Numeral.readNumber?_signed (h : Numeral l) (hx : FormulaGraph.readNumber? l = some x) (negative : Bool) :
    FormulaGraph.readNumber? (signed negative l) = some (if negative then -x else x) := by
  cases negative
  · exact hx
  · exact congrArg (Option.map (-·)) (h.readNumber?_eq.symm.trans hx)

theorem readPlain?_whole (hw : ∀ c ∈ whole, c.isDigit = true) (hne : whole ≠ []) :
    readPlain? whole = some ⟨digitsValue whole, 0⟩ := by
  rw [readPlain?, List.takeWhile_eq_self_iff.mpr hw, List.dropWhile_eq_nil_iff.mpr hw]
  simp [hne]

theorem readPlain?_point (hw : ∀ c ∈ whole, c.isDigit = true) (hf : ∀ c ∈ fraction, c.isDigit = true)
    (hne : whole ≠ [] ∨ fraction ≠ []) :
    readPlain? (whole ++ '.' :: fraction) = some ⟨digitsValue (whole ++ fraction), -fraction.length⟩ := by
  have hpoint : '.'.isDigit = false := by decide
  rw [readPlain?, List.takeWhile_append_of_pos hw, List.dropWhile_append_of_pos hw]
  have hall : fraction.all Char.isDigit = true := List.all_eq_true.mpr hf
  have hempty : (whole.isEmpty && fraction.isEmpty) = false := by
    rcases hne with hne | hne <;> simp [hne]
  rw [List.takeWhile_cons_of_neg (by simp), List.dropWhile_cons_of_neg (by simp), List.append_nil]
  simp [hall, hempty]

theorem digitsValue_eq (l : List Char) : digitsValue l = Nat.ofDigitChars 10 l 0 := Nat.ofDigitChars_eq_foldl.symm

/-! Writing. -/

theorem exists_head (hw : ∀ c ∈ whole, c.isDigit = true) (hne : whole ≠ []) :
    ∃ c rest, whole = c :: rest ∧ c.isDigit = true := by
  obtain ⟨c, rest, rfl⟩ := List.exists_cons_of_ne_nil hne
  exact ⟨c, rest, rfl, hw c List.mem_cons_self⟩

theorem count_point_eq_zero (hw : ∀ c ∈ whole, c.isDigit = true) : whole.count '.' = 0 :=
  List.count_eq_zero.mpr fun hmem => by cases hw _ hmem

theorem numeral_whole (hw : ∀ c ∈ whole, c.isDigit = true) (hne : whole ≠ []) : Numeral whole where
  chars c hc := .inl (hw c hc)
  points := by rw [count_point_eq_zero hw]; exact Nat.zero_le _
  start := .inl (exists_head hw hne)

theorem numeral_zeros (hc : c.isDigit = true) (n : ℕ) : Numeral (c :: List.replicate n '0') := by
  refine numeral_whole (fun d hd => ?_) (List.cons_ne_nil _ _)
  obtain rfl | hd := List.mem_cons.mp hd
  · exact hc
  · rw [List.eq_of_mem_replicate hd]
    rfl

theorem numeral_point (hw : ∀ c ∈ whole, c.isDigit = true) (hf : ∀ c ∈ fraction, c.isDigit = true)
    (hne : whole ≠ []) : Numeral (whole ++ '.' :: fraction) where
  chars c hc := by
    rcases List.mem_append.mp hc with hc | hc
    · exact .inl (hw c hc)
    · exact (List.mem_cons.mp hc).symm.imp_left (hf c)
  points := by
    rw [List.count_append, List.count_cons_self, count_point_eq_zero hw, count_point_eq_zero hf]
  start := by
    obtain ⟨c, rest, rfl, hc⟩ := exists_head hw hne
    exact .inl ⟨c, _, rfl, hc⟩

/-- What a decimal is written as reads back as the same number. -/
theorem Decimal.readPlain?_text (d : Decimal) :
    Numeral d.text ∧ ∃ d', readPlain? d.text = some d' ∧ d'.value = d.value := by
  obtain ⟨digits, hdigits⟩ : ∃ digits, digits = Nat.toDigits 10 d.digits := ⟨_, rfl⟩
  have hall : ∀ c ∈ digits, c.isDigit = true := fun c hc =>
    Nat.isDigit_of_mem_toDigits (by decide) (by decide) (hdigits ▸ hc)
  have hne : digits ≠ [] := hdigits ▸ Nat.toDigits_ne_nil
  have hvalue : Nat.ofDigitChars 10 digits 0 = d.digits := by
    rw [hdigits, Nat.ofDigitChars_ten_toDigits]
  have hzeros : ∀ k, ∀ c ∈ List.replicate k '0', c.isDigit = true := fun k c hc => by
    rw [List.eq_of_mem_replicate hc]
    decide
  have htext : d.text = if 0 ≤ d.exponent then digits ++ List.replicate d.exponent.natAbs '0'
      else if d.exponent.natAbs < digits.length then
        digits.take (digits.length - d.exponent.natAbs) ++
          '.' :: digits.drop (digits.length - d.exponent.natAbs)
      else ['0'] ++ '.' :: (List.replicate (d.exponent.natAbs - digits.length) '0' ++ digits) := by
    rw [hdigits]
    rfl
  rw [htext]
  split
  next hexponent =>
    have hw : ∀ c ∈ digits ++ List.replicate d.exponent.natAbs '0', c.isDigit = true := fun c hc =>
      (List.mem_append.mp hc).elim (hall c) (hzeros _ c)
    refine ⟨numeral_whole hw (by simp [hne]), _, readPlain?_whole hw (by simp [hne]), ?_⟩
    obtain ⟨k, hk⟩ := Int.eq_ofNat_of_zero_le hexponent
    rw [digitsValue_eq, Nat.ofDigitChars_append, hvalue, Nat.ofDigitChars_replicate_zero, value, value, hk]
    simp [mul_comm]
  split
  next hexponent hplaces =>
    have hw : ∀ c ∈ digits.take (digits.length - d.exponent.natAbs), c.isDigit = true := fun c hc =>
      hall c (List.mem_of_mem_take hc)
    have hf : ∀ c ∈ digits.drop (digits.length - d.exponent.natAbs), c.isDigit = true := fun c hc =>
      hall c (List.mem_of_mem_drop hc)
    have hne : digits.take (digits.length - d.exponent.natAbs) ≠ [] := fun hnil => by
      rcases List.take_eq_nil_iff.mp hnil with hnone | hnil
      · omega
      · exact hne hnil
    have hplace : -((digits.length - (digits.length - d.exponent.natAbs) : ℕ) : ℤ) = d.exponent := by omega
    refine ⟨numeral_point hw hf hne, _, readPlain?_point hw hf (.inl hne), ?_⟩
    rw [List.take_append_drop, digitsValue_eq, hvalue, List.length_drop, hplace]
  next hexponent hplaces =>
    have hw : ∀ c ∈ ['0'], c.isDigit = true := List.forall_mem_singleton.mpr rfl
    have hf : ∀ c ∈ List.replicate (d.exponent.natAbs - digits.length) '0' ++ digits, c.isDigit = true :=
      fun c hc => (List.mem_append.mp hc).elim (hzeros _ c) (hall c)
    have hplace : -((List.replicate (d.exponent.natAbs - digits.length) '0' ++ digits).length : ℤ) =
        d.exponent := by
      rw [List.length_append, List.length_replicate]
      omega
    refine ⟨numeral_point hw hf (by simp), _, readPlain?_point hw hf (.inl (by simp)), ?_⟩
    rw [hplace, digitsValue_eq, ← List.append_assoc, Nat.ofDigitChars_append, Nat.ofDigitChars_append,
      Nat.ofDigitChars_replicate_zero]
    change Decimal.value ⟨Nat.ofDigitChars 10 digits (10 ^ _ * 0), d.exponent⟩ = _
    rw [Nat.mul_zero, hvalue]

end FormulaGraph
