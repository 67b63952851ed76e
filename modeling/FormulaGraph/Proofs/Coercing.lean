import FormulaGraph.Proofs.Assembling
import FormulaGraph.Proofs.Comparing

/-! Ratios in the place of scalars. Operators take either, with the same result, except that points, vectors and
angles are multiplied by and divided by scalars only. -/

namespace FormulaGraph

/-- A number in a unit to the power of zero. -/
def Value.ratio (s : Float) (u : LengthUnit) : Value := .quantity ⟨s, u, 0⟩

/-- Both fail, or both have results and these are equal up to tolerance. -/
def Alike : Applied → Applied → Prop
  | .ok v, .ok w => v.approxEq? w = some true
  | .error _, .error _ => True
  | _, _ => False

/-- Multiplying and dividing the value takes a scalar and no ratio. -/
def BinaryOp.Misses (op : BinaryOp) (v : Value) : Prop :=
  (op = .mul ∨ op = .div) ∧ (v.kind = .point ∨ v.kind = .vector ∨ v.kind = .angle)

/-- The operator brings the value to the unit of a ratio on its left. -/
def BinaryOp.Converts (op : BinaryOp) (u : LengthUnit) (v : Value) : Prop :=
  (op = .mul ∨ op = .div) ∧ ∃ q, v = .quantity q ∧ q.exponent ≠ 0 ∧ q.unit ≠ u

variable {v w : Value} {q : Quantity} {s x y : Float} {u : LengthUnit} {op : BinaryOp}

/-! Results that are the same. -/

/-- The same numbers, as a ratio or as a scalar. -/
inductive Value.Same : Value → Value → Prop
  | scalar (x : Float) : Same (.scalar x) (.scalar x)
  | quantity (q : Quantity) : Same (.quantity q) (.quantity q)
  | bool (b : Bool) : Same (.bool b) (.bool b)
  | coerced (x : Float) (u : LengthUnit) : Same (.ratio x u) (.scalar x)
  | ratio (x : Float) (u u' : LengthUnit) : Same (.ratio x u) (.ratio x u')

/-- Both fail, or both have results and these are the same. -/
inductive Agree : Applied → Applied → Prop
  | ok {v w : Value} (h : v.Same w) : Agree (.ok v) (.ok w)
  | error (fault fault' : ValueFault) : Agree (.error fault) (.error fault')

theorem approxEq_self (hx : x.isFinite = true) : approxEq x x = true := by
  refine approxEq_of_le hx hx ?_
  rw [sub_self, abs_zero]
  positivity

namespace Value.Same

theorem numbers_eq (h : v.Same w) : v.numbers = w.numbers := by
  cases h <;> rfl

theorem approxEq? (h : v.Same w) (hv : ∀ x ∈ v.numbers, x.isFinite = true) : v.approxEq? w = some true := by
  cases h with
  | scalar x => exact congrArg some (approxEq_self (hv x (by simp [numbers])))
  | quantity q =>
    have hself : q.approxEq q = true := by
      rw [Quantity.approxEq, inUnit_eq_magnitude (.inl rfl), approxEq_self (hv _ (by simp [numbers])),
        Quantity.sameDimension, BEq.rfl]
      rfl
    rw [Value.approxEq?, hself, Quantity.sameDimension, BEq.rfl]
    rfl
  | bool b => rw [Value.approxEq?, BEq.rfl]
  | coerced x u => exact congrArg some (approxEq_self (hv x (by simp [numbers, Value.ratio])))
  | ratio x u u' =>
    have hself : Quantity.approxEq ⟨x, u, 0⟩ ⟨x, u', 0⟩ = true := by
      rw [Quantity.approxEq, inUnit_eq_magnitude (.inr rfl), approxEq_self (hv x (by simp [numbers, Value.ratio]))]
      rfl
    rw [Value.ratio, Value.ratio, Value.approxEq?, hself]
    rfl

end Value.Same

theorem checkFinite_cases (v : Value) :
    checkFinite v = .ok v ∧ (∀ x ∈ v.numbers, x.isFinite = true) ∨
      (∃ fault, checkFinite v = .error fault) ∧ ¬ ∀ x ∈ v.numbers, x.isFinite = true := by
  cases hv : checkFinite v with
  | ok w =>
    obtain ⟨rfl, hfinite⟩ := checkFinite_iff.mp hv
    exact .inl ⟨rfl, hfinite⟩
  | error fault =>
    refine .inr ⟨⟨fault, rfl⟩, fun hfinite => ?_⟩
    rw [checkFinite_iff.mpr ⟨rfl, hfinite⟩] at hv
    cases hv

/-- Values of the same numbers fail together. -/
theorem alike_checkFinite_iff (h : v.numbers = w.numbers) :
    Alike (checkFinite v) (checkFinite w) ↔ (v.approxEq? w = some true ∨ ¬ (checkFinite w).isOk = true) := by
  rcases checkFinite_cases v with ⟨hv, hfinite⟩ | ⟨⟨fault, hv⟩, hinfinite⟩ <;>
    rcases checkFinite_cases w with ⟨hw, hfinite'⟩ | ⟨⟨fault', hw⟩, hinfinite'⟩
  · simp [hv, hw, Alike, Except.isOk, Except.toBool]
  · exact absurd (h ▸ hfinite) hinfinite'
  · exact absurd (h ▸ hfinite') hinfinite
  · simp [hv, hw, Alike, Except.isOk, Except.toBool]

theorem alike_error_iff {fault : ValueFault} {r : Applied} : Alike (.error fault) r ↔ ¬ r.isOk = true := by
  cases r <;> simp [Alike, Except.isOk, Except.toBool]

theorem Agree.alike {r r' : Applied} (h : Agree r r') : Alike (r >>= checkFinite) (r' >>= checkFinite) := by
  cases h with
  | error => trivial
  | @ok v w h =>
    refine (alike_checkFinite_iff h.numbers_eq).mpr ?_
    rcases checkFinite_cases w with ⟨-, hfinite⟩ | ⟨⟨fault, hw⟩, -⟩
    · exact .inl (h.approxEq? (h.numbers_eq ▸ hfinite))
    · rw [hw]
      exact .inr Bool.false_ne_true

/-! Comparing. -/

theorem approxEq?_ratio_right (v : Value) (s : Float) (u : LengthUnit) :
    v.approxEq? (.ratio s u) = v.approxEq? (.scalar s) := by
  cases v with
  | quantity q =>
    have hmeasure : (⟨s, u, 0⟩ : Quantity).inUnit q.unit = s := inUnit_eq_magnitude (.inr rfl)
    change (if q.exponent == 0 then some (q.approxEq ⟨s, u, 0⟩) else none) =
      (if q.exponent == 0 then some q.magnitude else none).bind fun x => some (approxEq x s)
    rw [Quantity.approxEq, hmeasure, Quantity.sameDimension]
    cases q.exponent == 0 <;> rfl
  | scalar | point | vector | angle | color | bool | text => rfl

theorem approxEq?_ratio_left (v : Value) (s : Float) (u : LengthUnit) :
    (Value.ratio s u).approxEq? v = (Value.scalar s).approxEq? v := by
  cases v with
  | quantity q =>
    change (if (0 : Int32) == q.exponent then some (Quantity.approxEq ⟨s, u, 0⟩ q) else none) =
      (if q.exponent == 0 then some q.magnitude else none).bind fun x => some (approxEq s x)
    rw [Quantity.approxEq, Quantity.sameDimension, BEq.comm]
    cases hzero : q.exponent == 0
    · rfl
    · rw [inUnit_eq_magnitude (.inr (beq_iff_eq.mp hzero))]
      rfl
  | scalar | point | vector | angle | color | bool | text => rfl

theorem order?_ratio_right (v : Value) (s : Float) (u : LengthUnit) : v.order? (.ratio s u) = v.order? (.scalar s) := by
  cases v with
  | quantity q =>
    cases hzero : q.exponent == 0 <;>
      simp [Value.ratio, Value.order?, Value.scalarOrder?, Value.asScalar?, Quantity.isRatio, Quantity.order?,
        Quantity.sameDimension, hzero]
  | scalar | point | vector | angle | color | bool | text => rfl

theorem order?_ratio_left (v : Value) (s : Float) (u : LengthUnit) :
    (Value.ratio s u).order? v = (Value.scalar s).order? v := by
  cases v with
  | quantity q =>
    cases hzero : q.exponent == 0 <;>
      simp [Value.ratio, Value.order?, Value.scalarOrder?, Value.asScalar?, Quantity.isRatio, Quantity.order?,
        Quantity.sameDimension, BEq.comm (a := (0 : Int32)), hzero]
  | scalar | point | vector | angle | color | bool | text => rfl

section

variable {a b a' b' : Value}

theorem agree_eq (h : a.approxEq? b = a'.approxEq? b') : Agree (combine .eq a b) (combine .eq a' b') := by
  rw [combine, combine, equate, equate, h]
  cases a'.approxEq? b' with
  | none => exact .error _ _
  | some same => exact .ok (.bool same)

theorem agree_ne (h : a.approxEq? b = a'.approxEq? b') : Agree (combine .ne a b) (combine .ne a' b') := by
  rw [combine, combine, equate, equate, h]
  cases a'.approxEq? b' with
  | none => exact .error _ _
  | some same => exact .ok (.bool !same)

theorem agree_compareWith (test : Ordering → Bool) (h : a.order? b = a'.order? b') :
    Agree (compareWith op test a b) (compareWith op test a' b') := by
  rw [compareWith, compareWith, h]
  cases a'.order? b' with
  | none => exact .error _ _
  | some order => exact .ok (.bool (test order))

end

/-! Sums and differences. -/

theorem joinQuantities_ratios (m s : Float) (u u' : LengthUnit) :
    joinQuantities op ⟨m, u', 0⟩ ⟨s, u, 0⟩ = .ok ⟨if op = .sub then m - s else m + s, u', 0⟩ := by
  have hadd : ∀ t, Quantity.add? ⟨m, u', 0⟩ ⟨t, u, 0⟩ = some ⟨m + t, u', 0⟩ := fun t => by
    have hmeasure : (⟨t, u, 0⟩ : Quantity).inUnit u' = t := inUnit_eq_magnitude (.inr rfl)
    rw [Quantity.add?, hmeasure]
    rfl
  rw [joinQuantities, Quantity.sub?, Quantity.neg, hadd, hadd, ← Double.sub_eq_add_neg]
  by_cases hop : op = .sub
  · rw [if_pos hop, if_pos hop]
  · rw [if_neg hop, if_neg hop]

theorem joinQuantities_of_ne {a b : Quantity} (h : a.exponent ≠ b.exponent) :
    joinQuantities op a b = .error (.exponents op a.exponent b.exponent) := by
  have hsame : ∀ t, (a.sameDimension { b with magnitude := t }) = false := fun t => beq_eq_false_iff_ne.mpr h
  have hadd : ∀ t, a.add? { b with magnitude := t } = none := fun t => by
    rw [Quantity.add?, hsame t]
    rfl
  rw [joinQuantities, Quantity.sub?, Quantity.neg, hadd, hadd b.magnitude, ite_self]

section

variable (hop : op = .add ∨ op = .sub)
include hop

theorem arithmetic_join (a b : Quantity) :
    arithmetic op (.quantity a) (.quantity b) = joinQuantities op a b >>= fun q => .ok (.quantity q) := by
  obtain rfl | rfl := hop <;> rfl

theorem agree_sum_right (hv : v.kind ≠ .text) : Agree (arithmetic op v (.ratio s u)) (arithmetic op v (.scalar s)) := by
  cases v with
  | scalar x => obtain rfl | rfl := hop <;> exact .ok (.scalar _)
  | quantity q =>
    have hscalar : arithmetic op (.quantity q) (.scalar s) =
        if q.isRatio then .ok (.scalar (if op = .sub then q.magnitude - s else q.magnitude + s))
        else op.mismatch (.quantity q) (.scalar s) := by obtain rfl | rfl := hop <;> rfl
    obtain ⟨m, u', e⟩ := q
    rw [hscalar, Value.ratio, arithmetic_join hop]
    by_cases hzero : e = 0
    · subst hzero
      have hratio : (⟨m, u', 0⟩ : Quantity).isRatio = true := rfl
      rw [joinQuantities_ratios, if_pos hratio]
      exact .ok (.coerced _ u')
    · have hratio : ¬ (⟨m, u', e⟩ : Quantity).isRatio = true := mt beq_iff_eq.mp hzero
      rw [joinQuantities_of_ne hzero, if_neg hratio]
      exact .error _ _
  | point | vector | angle | color | bool => obtain rfl | rfl := hop <;> exact .error _ _
  | text => exact absurd rfl hv

theorem agree_sum_left (hv : v.kind ≠ .text) : Agree (arithmetic op (.ratio s u) v) (arithmetic op (.scalar s) v) := by
  cases v with
  | scalar x => obtain rfl | rfl := hop <;> exact .ok (.scalar _)
  | quantity q =>
    have hscalar : arithmetic op (.scalar s) (.quantity q) =
        if q.isRatio then .ok (.scalar (if op = .sub then s - q.magnitude else s + q.magnitude))
        else op.mismatch (.scalar s) (.quantity q) := by obtain rfl | rfl := hop <;> rfl
    obtain ⟨m, u', e⟩ := q
    rw [hscalar, Value.ratio, arithmetic_join hop]
    by_cases hzero : e = 0
    · subst hzero
      have hratio : (⟨m, u', 0⟩ : Quantity).isRatio = true := rfl
      rw [joinQuantities_ratios, if_pos hratio]
      exact .ok (.coerced _ u)
    · have hratio : ¬ (⟨m, u', e⟩ : Quantity).isRatio = true := mt beq_iff_eq.mp hzero
      rw [joinQuantities_of_ne (Ne.symm hzero), if_neg hratio]
      exact .error _ _
  | point | vector | angle | color | bool => obtain rfl | rfl := hop <;> exact .error _ _
  | text => exact absurd rfl hv

end

/-! Products and quotients. -/

/-- A quotient of quantities is one of their magnitudes in the unit on the left. -/
theorem arithmetic_div (a b : Quantity) :
    arithmetic .div (.quantity a) (.quantity b) = nonZero (b.inUnit a.unit) >>= fun _ =>
      .ok (.quantity ⟨a.magnitude / b.inUnit a.unit, a.unit, a.exponent - b.exponent⟩) := by
  rw [arithmetic, Quantity.quotient?, nonZero]
  cases b.inUnit a.unit == 0 <;> rfl

theorem agree_mul_right (hmisses : ¬ BinaryOp.mul.Misses v) (hv : v.kind ≠ .text) :
    Agree (arithmetic .mul v (.ratio s u)) (arithmetic .mul v (.scalar s)) := by
  cases v with
  | scalar x =>
    have hproduct : arithmetic .mul (.scalar x) (.ratio s u) = .ok (.ratio (s * x) u) := rfl
    rw [hproduct, Double.mul_comm]
    exact .ok (.coerced (x * s) u)
  | quantity q =>
    have hproduct : q.product ⟨s, u, 0⟩ = q.scale s := by
      rw [Quantity.product, inUnit_eq_magnitude (.inr rfl), Int32.add_zero, Quantity.scale]
    change Agree (.ok (.quantity (q.product ⟨s, u, 0⟩))) (.ok (.quantity (q.scale s)))
    rw [hproduct]
    exact .ok (.quantity _)
  | point | vector | angle => exact absurd ⟨.inl rfl, by simp [Value.kind]⟩ hmisses
  | color | bool => exact .error _ _
  | text => exact absurd rfl hv

theorem agree_div_right (hmisses : ¬ BinaryOp.div.Misses v) (hv : v.kind ≠ .text) :
    Agree (arithmetic .div v (.ratio s u)) (arithmetic .div v (.scalar s)) := by
  cases v with
  | scalar x =>
    change Agree (nonZero s >>= fun _ => .ok (.quantity ⟨x / s, u, -0⟩)) (nonZero s >>= fun _ => .ok (.scalar (x / s)))
    rw [Int32.neg_zero]
    cases nonZero s with
    | error fault => exact .error fault fault
    | ok _ => exact .ok (.coerced _ u)
  | quantity q =>
    have hdivisor : (⟨s, u, 0⟩ : Quantity).inUnit q.unit = s := inUnit_eq_magnitude (.inr rfl)
    rw [Value.ratio, arithmetic_div, hdivisor, Int32.sub_zero]
    change Agree _ (nonZero s >>= fun _ => .ok (.quantity (q.divide s)))
    cases nonZero s with
    | error fault => exact .error fault fault
    | ok _ => exact .ok (.quantity _)
  | point | vector | angle => exact absurd ⟨.inr rfl, by simp [Value.kind]⟩ hmisses
  | color | bool => exact .error _ _
  | text => exact absurd rfl hv

/-- What has no exponent, or is in the unit already, keeps its magnitude. -/
theorem inUnit_of_not_converts (hop : op = .mul ∨ op = .div) (h : ¬ op.Converts u (.quantity q)) :
    q.inUnit u = q.magnitude ∧ (q.exponent = 0 ∨ q.unit = u) := by
  have hmeasure : q.exponent = 0 ∨ q.unit = u := by
    by_contra hne
    rw [not_or] at hne
    exact h ⟨hop, q, rfl, hne⟩
  exact ⟨inUnit_eq_magnitude hmeasure.symm, hmeasure⟩

theorem agree_mul_left (hmisses : ¬ BinaryOp.mul.Misses v) (hconverts : ¬ BinaryOp.mul.Converts u v)
    (hv : v.kind ≠ .text) : Agree (arithmetic .mul (.ratio s u) v) (arithmetic .mul (.scalar s) v) := by
  cases v with
  | scalar x => exact .ok (.coerced (s * x) u)
  | quantity q =>
    obtain ⟨hkept, hmeasure⟩ := inUnit_of_not_converts (.inl rfl) hconverts
    change Agree (.ok (.quantity ⟨s * q.inUnit u, u, 0 + q.exponent⟩))
      (.ok (.quantity ⟨q.magnitude * s, q.unit, q.exponent⟩))
    rw [hkept, Int32.zero_add, Double.mul_comm]
    obtain hzero | rfl := hmeasure
    · rw [hzero]
      exact .ok (.ratio _ _ _)
    · exact .ok (.quantity _)
  | point | vector | angle => exact absurd ⟨.inl rfl, by simp [Value.kind]⟩ hmisses
  | color | bool => exact .error _ _
  | text => exact absurd rfl hv

theorem agree_div_left (hconverts : ¬ BinaryOp.div.Converts u v) (hv : v.kind ≠ .text) :
    Agree (arithmetic .div (.ratio s u) v) (arithmetic .div (.scalar s) v) := by
  cases v with
  | scalar x =>
    change Agree (nonZero x >>= fun _ => .ok (.ratio (s / x) u)) (nonZero x >>= fun _ => .ok (.scalar (s / x)))
    cases nonZero x with
    | error fault => exact .error fault fault
    | ok _ => exact .ok (.coerced _ u)
  | quantity q =>
    obtain ⟨hkept, hmeasure⟩ := inUnit_of_not_converts (.inr rfl) hconverts
    rw [Value.ratio, arithmetic_div, hkept, Int32.zero_sub]
    change Agree _ (nonZero q.magnitude >>= fun _ => .ok (.quantity ⟨s / q.magnitude, q.unit, -q.exponent⟩))
    cases nonZero q.magnitude with
    | error fault => exact .error fault fault
    | ok _ =>
      obtain hzero | rfl := hmeasure
      · rw [hzero, Int32.neg_zero]
        exact .ok (.ratio _ _ _)
      · exact .ok (.quantity _)
  | point | vector | angle | color | bool => exact .error _ _
  | text => exact absurd rfl hv

/-! Every operator. -/

theorem agree_right (hmisses : ¬ op.Misses v) (hv : v.kind ≠ .text) :
    Agree (combine op v (.ratio s u)) (combine op v (.scalar s)) := by
  cases op with
  | add => exact agree_sum_right (.inl rfl) hv
  | sub => exact agree_sum_right (.inr rfl) hv
  | mul => exact agree_mul_right hmisses hv
  | div => exact agree_div_right hmisses hv
  | eq => exact agree_eq (approxEq?_ratio_right v s u)
  | ne => exact agree_ne (approxEq?_ratio_right v s u)
  | lt | gt | le | ge => exact agree_compareWith _ (order?_ratio_right v s u)
  | and | or => cases v <;> exact .error _ _

theorem agree_left (hmisses : ¬ op.Misses v) (hconverts : ¬ op.Converts u v) (hv : v.kind ≠ .text) :
    Agree (combine op (.ratio s u) v) (combine op (.scalar s) v) := by
  cases op with
  | add => exact agree_sum_left (.inl rfl) hv
  | sub => exact agree_sum_left (.inr rfl) hv
  | mul => exact agree_mul_left hmisses hconverts hv
  | div => exact agree_div_left hconverts hv
  | eq => exact agree_eq (approxEq?_ratio_left v s u)
  | ne => exact agree_ne (approxEq?_ratio_left v s u)
  | lt | gt | le | ge => exact agree_compareWith _ (order?_ratio_left v s u)
  | and | or => exact .error _ _

/-! What takes scalars only. -/

/-- A ratio makes a point of a vector, and that equals no vector. -/
theorem alike_scaled_iff (p : Planar) :
    Alike (checkFinite (.point ⟨s * p.x, u, 0⟩ ⟨s * p.y, u, 0⟩)) (checkFinite (.vector (p.scale s))) ↔
      ¬ (checkFinite (.vector (p.scale s))).isOk = true := by
  have hnumbers : (Value.point ⟨s * p.x, u, 0⟩ ⟨s * p.y, u, 0⟩).numbers = (Value.vector (p.scale s)).numbers := by
    simp only [Value.numbers, Planar.scale, Double.mul_comm s]
  have hother : (Value.point ⟨s * p.x, u, 0⟩ ⟨s * p.y, u, 0⟩).approxEq? (.vector (p.scale s)) ≠ some true := by
    intro h
    cases h
  rw [alike_checkFinite_iff hnumbers, or_iff_right hother]

theorem missed_right (h : op.Misses v) :
    Alike (op.apply v (.ratio s u)) (op.apply v (.scalar s)) ↔ ¬ (op.apply v (.scalar s)).isOk = true := by
  obtain ⟨rfl | rfl, hkind⟩ := h <;> cases v with
  | point | angle => exact alike_error_iff
  | vector p => first | exact alike_scaled_iff p | exact alike_error_iff
  | scalar | quantity | color | bool | text => simp [Value.kind] at hkind

theorem missed_left (h : op.Misses v) :
    Alike (op.apply (.ratio s u) v) (op.apply (.scalar s) v) ↔ ¬ (op.apply (.scalar s) v).isOk = true := by
  obtain ⟨rfl | rfl, hkind⟩ := h <;> cases v with
  | point | angle => exact alike_error_iff
  | vector p => first | exact alike_scaled_iff p | exact alike_error_iff
  | scalar | quantity | color | bool | text => simp [Value.kind] at hkind

/-- On the right, a ratio does as a scalar does, unless scalars alone are taken. -/
theorem alike_right_iff (hv : v.kind ≠ .text) :
    Alike (op.apply v (.ratio s u)) (op.apply v (.scalar s)) ↔
      ¬ (op.Misses v ∧ (op.apply v (.scalar s)).isOk = true) := by
  by_cases hmisses : op.Misses v
  · rw [missed_right hmisses, and_iff_right hmisses]
  · exact iff_of_true (agree_right hmisses hv).alike fun h => hmisses h.1

/-- So it does on the left, where no unit is converted to that of the ratio. -/
theorem alike_left_iff (hconverts : ¬ op.Converts u v) (hv : v.kind ≠ .text) :
    Alike (op.apply (.ratio s u) v) (op.apply (.scalar s) v) ↔
      ¬ (op.Misses v ∧ (op.apply (.scalar s) v).isOk = true) := by
  by_cases hmisses : op.Misses v
  · rw [missed_left hmisses, and_iff_right hmisses]
  · exact iff_of_true (agree_left hmisses hconverts hv).alike fun h => hmisses h.1

end FormulaGraph
