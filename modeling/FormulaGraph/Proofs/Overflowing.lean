import FormulaGraph.Proofs.Bounding
import FormulaGraph.Proofs.Printing

/-! Formulas that come to numbers that are not finite. What is calculated is checked, but a number that stands
alone is taken as it is read. -/

namespace FormulaGraph

variable {v : Value} {ts : List Token} {digits formula : String} {d : Decimal}

/-! Numbers too large to be read. -/

/-- Halfway between the greatest double and what would come next. -/
def overflow : ℚ := 2 ^ (1024 : ℤ) - 2 ^ (970 : ℤ)

theorem halfEven_lt_iff {y : ℚ} (hnonneg : 0 ≤ y) (hlt : y < 2 ^ 53) : halfEven y < 2 ^ 53 ↔ y < 2 ^ 53 - 1 / 2 := by
  have hfloor : ⌊y⌋₊ < 2 ^ 53 := (Nat.floor_lt hnonneg).mpr (by exact_mod_cast hlt)
  obtain ⟨-, hle⟩ := halfEven_bounds y
  rcases (by omega : ⌊y⌋₊ + 1 < 2 ^ 53 ∨ ⌊y⌋₊ = 2 ^ 53 - 1) with hsmall | hlast
  · have hbelow := Nat.lt_floor_add_one y
    have hcast : (⌊y⌋₊ : ℚ) + 1 + 1 ≤ 2 ^ 53 := by exact_mod_cast hsmall
    exact ⟨fun _ => by linarith, fun _ => by omega⟩
  · have hcast : (⌊y⌋₊ : ℚ) = 2 ^ 53 - 1 := by
      rw [hlast]
      norm_num
    rw [halfEven, hcast]
    -- The last place of the greatest mantissa is odd, so what is halfway to the next one is rounded up.
    split
    next hbelow => exact ⟨fun _ => by linarith, fun _ => by omega⟩
    next habove =>
      refine iff_of_false ?_ (by linarith)
      split <;> omega

theorem abs_nearest (q : ℚ) : |nearest q| = halfEven (|q| / 2 ^ placeOf q) * 2 ^ placeOf q := by
  have hnonneg : (0 : ℚ) ≤ halfEven (|q| / 2 ^ placeOf q) * 2 ^ placeOf q :=
    mul_nonneg (Nat.cast_nonneg _) (zpow_two_pos _).le
  rw [nearest]
  split
  · rw [abs_neg, abs_of_nonneg hnonneg]
  · exact abs_of_nonneg hnonneg

theorem halfEven_mul_lt_iff {y : ℚ} {t : ℤ} (h : Placed y t) (hnonneg : 0 ≤ y) :
    halfEven y * 2 ^ t < (2 : ℚ) ^ (1024 : ℤ) ↔ y * 2 ^ t < overflow := by
  have hbound : (2 : ℚ) ^ (1024 : ℤ) = 2 ^ 54 * 2 ^ (970 : ℤ) := by
    rw [← zpow_natCast, ← zpow_add₀ two_ne_zero]
    rfl
  have hpos := zpow_two_pos 970
  have hfloor : ⌊y⌋₊ < 2 ^ 53 := (Nat.floor_lt hnonneg).mpr (by exact_mod_cast h.lt)
  obtain ⟨hlow, hhigh⟩ := halfEven_bounds y
  rw [overflow, hbound]
  clear hbound
  rcases (by omega : t ≤ 970 ∨ t = 971 ∨ 972 ≤ t) with hsmall | rfl | hlarge
  · have hunit : (2 : ℚ) ^ t ≤ 2 ^ (970 : ℤ) := zpow_le_zpow_right₀ one_le_two hsmall
    have hrounded : (halfEven y : ℚ) ≤ 2 ^ 53 := by exact_mod_cast hhigh.trans hfloor
    have hproduct := mul_le_mul hrounded hunit (zpow_two_pos t).le (by positivity)
    have hproduct' := mul_le_mul h.lt.le hunit (zpow_two_pos t).le (by positivity)
    generalize (2 : ℚ) ^ (970 : ℤ) = unit at *
    exact iff_of_true (by linarith) (by linarith)
  · have hdouble : (2 : ℚ) ^ (971 : ℤ) = 2 ^ (970 : ℤ) * 2 := zpow_add_one₀ two_ne_zero 970
    have hcast : (halfEven y : ℚ) < 2 ^ 53 ↔ halfEven y < 2 ^ 53 := by exact_mod_cast Iff.rfl
    rw [hdouble]
    clear hdouble
    generalize (2 : ℚ) ^ (970 : ℤ) = unit at *
    calc
      halfEven y * (unit * 2) < 2 ^ 54 * unit ↔ (halfEven y : ℚ) * (unit * 2) < 2 ^ 53 * (unit * 2) := by
        rw [show (2 : ℚ) ^ 54 * unit = 2 ^ 53 * (unit * 2) by ring]
      _ ↔ (halfEven y : ℚ) < 2 ^ 53 := mul_lt_mul_iff_left₀ (by linarith)
      _ ↔ y < 2 ^ 53 - 1 / 2 := hcast.trans (halfEven_lt_iff hnonneg h.lt)
      _ ↔ y * (unit * 2) < (2 ^ 53 - 1 / 2) * (unit * 2) := (mul_lt_mul_iff_left₀ (by linarith)).symm
      _ ↔ y * (unit * 2) < 2 ^ 54 * unit - unit := by
        rw [show (2 ^ 53 - 1 / 2) * (unit * 2) = 2 ^ 54 * unit - unit by ring]
  · have hunit : (2 : ℚ) ^ (972 : ℤ) ≤ 2 ^ t := zpow_le_zpow_right₀ one_le_two hlarge
    have hfull : (2 : ℚ) ^ 52 ≤ y := h.full.resolve_left (by omega)
    have hfull' : 2 ^ 52 ≤ ⌊y⌋₊ := Nat.le_floor (by exact_mod_cast hfull)
    have hrounded : (2 : ℚ) ^ 52 ≤ halfEven y := by exact_mod_cast hfull'.trans hlow
    have hproduct := mul_le_mul hrounded hunit (zpow_two_pos _).le (Nat.cast_nonneg _)
    have hproduct' := mul_le_mul hfull hunit (zpow_two_pos _).le hnonneg
    have hdouble : (2 : ℚ) ^ (971 : ℤ) = 2 ^ (970 : ℤ) * 2 := zpow_add_one₀ two_ne_zero 970
    have hquadruple : (2 : ℚ) ^ (972 : ℤ) = 2 ^ (971 : ℤ) * 2 := zpow_add_one₀ two_ne_zero 971
    rw [hquadruple, hdouble] at hproduct hproduct'
    clear hquadruple hdouble hunit
    generalize (2 : ℚ) ^ (970 : ℤ) = unit at *
    exact iff_of_false (by linarith) (by linarith)

/-- Rounding is to a finite double just where a number is less than that. -/
theorem abs_nearest_lt_iff (q : ℚ) : |nearest q| < 2 ^ (1024 : ℤ) ↔ |q| < overflow := by
  rcases eq_or_ne q 0 with rfl | hq
  · have hlt : (2 : ℚ) ^ (970 : ℤ) < 2 ^ (1024 : ℤ) := zpow_lt_zpow_right₀ one_lt_two (by decide)
    rw [nearest_zero, abs_zero]
    exact iff_of_true (zpow_two_pos _) (sub_pos.mpr hlt)
  · have hpos := zpow_two_pos (placeOf q)
    rw [abs_nearest, halfEven_mul_lt_iff (placed_placeOf hq) (div_nonneg (abs_nonneg q) hpos.le),
      div_mul_cancel₀ |q| hpos.ne']

theorem Decimal.isFinite_toFloat_iff : d.toFloat.isFinite = true ↔ d.value < overflow := by
  rw [d.rounds_toFloat.isFinite_iff, abs_nearest_lt_iff, abs_of_nonneg d.value_nonneg]

/-! Numbers that stand alone. -/

/-- The tokens are one number in any number of brackets. -/
inductive Lone (digits : String) : List Token → Prop
  | number (offset : ℕ) : Lone digits [⟨offset, .number digits⟩]
  | group {ts : List Token} (opening closing : ℕ) (h : Lone digits ts) :
    Lone digits (⟨opening, .symbol .opening⟩ :: (ts ++ [⟨closing, .symbol .closing⟩]))

theorem Lone.numeral (h : Lone digits ts) (hts : NumbersSpelled ts) : Numeral digits.toList := by
  induction h with
  | number offset => exact hts.head digits rfl
  | group opening closing h ih => exact ih hts.tail.left

theorem Lone.spells (h : Lone digits ts) :
    ∃ e, Spells 0 e ts ∧
      e.meaning noResults () = (readNumber? digits.toList).map fun x => .value (.scalar x) := by
  induction h with
  | number offset =>
    refine ⟨_, .number digits none offset 0, ?_⟩
    rw [Expr.meaning]
    cases readNumber? digits.toList <;> rfl
  | group opening closing h ih =>
    obtain ⟨e, hspells, hmeaning⟩ := ih
    exact ⟨_, .group opening closing hspells, by rw [Expr.meaning, hmeaning]⟩

/-- The value has finite numbers, or is that of a number that stands alone. -/
def Value.FiniteOrLone (v : Value) (ts : List Token) : Prop :=
  v.NumbersFinite ∨ ∃ digits x, Lone digits ts ∧ readNumber? digits.toList = some x ∧ v = .scalar x

theorem numbersFinite_of_value? {operation : Operation} {operands : List Value}
    (h : operation.value? operands = some v) : v.NumbersFinite := by
  rw [Operation.value?, toOption_eq_some] at h
  exact Value.numbersFinite_iff.mpr (operation.perform_of_apply h).2

theorem numbersFinite_of_result {operation : Operation} {operands : List Value}
    (h : ((operation.value? operands).bind fun w => some (Found.value w)) = some (.value v : Found Value Unit)) :
    v.NumbersFinite := by
  obtain ⟨w, hw, hv⟩ := Option.bind_eq_some_iff.mp h
  cases hv
  exact numbersFinite_of_value? hw

theorem numbersFinite_of_namedConstant? {name : String} (h : namedConstant? name = some v) : v.NumbersFinite := by
  rw [namedConstant?] at h
  split at h
  · cases h
    exact numericFault?_eq_none.mpr (by decide)
  split at h
  · cases h
    trivial
  split at h
  · cases h
    trivial
  split at h
  · cases h
    trivial
  · cases h

/-- All else than numbers comes from a calculation, or stands for something finite. -/
theorem Spells.finiteOrLone {k : ℕ} {e : Expr} {ts : List Token} :
    Spells k e ts → e.meaning noResults () = some (.value v) → v.FiniteOrLone ts
  | .number digits suffix offset place, hv => by
    rw [Expr.meaning] at hv
    obtain ⟨x, hx, hv⟩ := Option.bind_eq_some_iff.mp hv
    cases suffix with
    | none =>
      cases hv
      exact .inr ⟨digits, x, .number offset, hx, rfl⟩
    | some suffix => exact .inl (numbersFinite_of_result hv)
  | .text contents offset, hv => by
    cases hv
    exact .inl trivial
  | .name word offset, hv => by
    rw [Expr.meaning] at hv
    split at hv
    · cases hv
      exact .inl trivial
    split at hv
    · cases hv
      exact .inl trivial
    obtain ⟨w, hw, hv⟩ := Option.map_eq_some_iff.mp hv
    cases hv
    exact .inl (numbersFinite_of_namedConstant? hw)
  | .group opening closing h, hv => by
    rw [Expr.meaning] at hv
    exact (h.finiteOrLone hv).imp_right fun ⟨digits, x, hlone, hx⟩ => ⟨digits, x, .group opening closing hlone, hx⟩
  | .call _ _ _ _ h, hv => by
    rw [Expr.meaning] at hv
    obtain ⟨f, -, hv⟩ := Option.bind_eq_some_iff.mp hv
    obtain ⟨values, -, hv⟩ := Option.bind_eq_some_iff.mp hv
    exact .inl (numbersFinite_of_result hv)
  | .field _ _ _ h, hv => by
    rw [Expr.meaning] at hv
    obtain ⟨receiver, -, hv⟩ := Option.bind_eq_some_iff.mp hv
    cases receiver with
    | value w =>
      obtain ⟨f, -, hv⟩ := Option.bind_eq_some_iff.mp hv
      exact .inl (numbersFinite_of_result hv)
    | scope | list => cases hv
  | .method _ _ _ _ _ h hs, hv => by
    rw [Expr.meaning] at hv
    obtain ⟨receiver, -, hv⟩ := Option.bind_eq_some_iff.mp hv
    obtain ⟨w, -, hv⟩ := Option.bind_eq_some_iff.mp hv
    obtain ⟨m, -, hv⟩ := Option.bind_eq_some_iff.mp hv
    obtain ⟨values, -, hv⟩ := Option.bind_eq_some_iff.mp hv
    exact .inl (numbersFinite_of_result hv)
  | .unary _ _ _ h, hv => by
    rw [Expr.meaning] at hv
    obtain ⟨operand, -, hv⟩ := Option.bind_eq_some_iff.mp hv
    obtain ⟨w, -, hv⟩ := Option.bind_eq_some_iff.mp hv
    exact .inl (numbersFinite_of_result hv)
  | .binary _ _ _ hl hr, hv => by
    rw [Expr.meaning] at hv
    obtain ⟨left, -, hv⟩ := Option.bind_eq_some_iff.mp hv
    obtain ⟨w, -, hv⟩ := Option.bind_eq_some_iff.mp hv
    obtain ⟨right, -, hv⟩ := Option.bind_eq_some_iff.mp hv
    obtain ⟨w', -, hv⟩ := Option.bind_eq_some_iff.mp hv
    exact .inl (numbersFinite_of_result hv)

/-- What a formula comes to is finite, unless the formula is a number alone that is too large. -/
theorem numbersFinite_of_evaluate_iff (h : evaluate formula = .ok v) :
    v.NumbersFinite ↔ ∀ ts digits d, tokenize formula = .ok ts → Lone digits ts →
      readPlain? digits.toList = some d → d.value < overflow := by
  constructor
  · intro hfinite ts digits d hts hlone hd
    obtain ⟨e, hspells, hmeaning⟩ := hlone.spells
    have hread := (hlone.numeral (numbersSpelled_of_tokenize hts)).readNumber?
    rw [hread, hd] at hmeaning
    have hvalue := evaluate_iff.mpr ⟨ts, e, hts, hspells, hmeaning⟩
    rw [h] at hvalue
    cases hvalue
    exact Decimal.isFinite_toFloat_iff.mp (numericFault?_eq_none.mp hfinite)
  · intro hsmall
    obtain ⟨ts, e, hts, hspells, hmeaning⟩ := evaluate_iff.mp h
    obtain hfinite | ⟨digits, x, hlone, hx, rfl⟩ := hspells.finiteOrLone hmeaning
    · exact hfinite
    · rw [(hlone.numeral (numbersSpelled_of_tokenize hts)).readNumber?] at hx
      obtain ⟨d, hd, rfl⟩ := Option.map_eq_some_iff.mp hx
      exact numericFault?_eq_none.mpr (Decimal.isFinite_toFloat_iff.mpr (hsmall ts digits d hts hlone hd))

theorem numbersFinite_of_evaluate_dozen :
    evaluate "(12)" = .ok (.scalar 12) ∧
      ∀ ts digits d, tokenize "(12)" = .ok ts → Lone digits ts → readPlain? digits.toList = some d →
        d.value < overflow :=
  have hdozen : evaluate "(12)" = .ok (.scalar 12) := toOption_eq_some.mp (by decide +kernel)
  ⟨hdozen, (numbersFinite_of_evaluate_iff hdozen).mp (numericFault?_eq_none.mpr (by decide))⟩

/-- Three hundred and ten digits are too many. -/
theorem evaluate_not_numbersFinite : ¬ ∀ formula v, evaluate formula = .ok v → v.NumbersFinite := by
  intro hall
  have hread : readNumber? ('1' :: List.replicate 309 '0') = some (1 / 0) := by decide +kernel
  have hvast : evaluate (String.ofList ('1' :: List.replicate 309 '0')) = .ok (.scalar (1 / 0)) :=
    (says_number (k := 0) (numeral_zeros rfl 309) hread).evaluate
  have hfinite := numericFault?_eq_none.mp (hall _ _ hvast)
  exact absurd hfinite (by decide)

end FormulaGraph
