import FormulaGraph.Proofs.Bounding
import FormulaGraph.Proofs.Exactness
import FormulaGraph.Proofs.Printing

/-! Formulas of values. Evaluated, they come to equal values of the same kind. -/

namespace FormulaGraph

variable {v w : Value} {q : Quantity} {c : Color} {x y : Float} {u : LengthUnit} {text : List Char}

theorem value?_of_perform {operation : Operation} {operands : List Value} (h : operation.perform operands = .ok v)
    (hfinite : ∀ x ∈ v.numbers, x.isFinite = true) : operation.value? operands = some v := by
  rw [Operation.value?, toOption_eq_some, Operation.apply, h]
  exact checkFinite_iff.mpr ⟨rfl, hfinite⟩

theorem value?_of_combine {op : BinaryOp} {a b : Value} (h : combine op a b = .ok v)
    (hfinite : ∀ x ∈ v.numbers, x.isFinite = true) : (Operation.binary op).value? [a, b] = some v := by
  refine value?_of_perform ?_ hfinite
  rw [Operation.perform, BinaryOp.apply, h]
  exact checkFinite_iff.mpr ⟨rfl, hfinite⟩

theorem Says.evaluate_toList {k : ℕ} {f : String} (h : Says k f.toList v) : FormulaGraph.evaluate f = .ok v := by
  have heval := (h.mono (Nat.zero_le k)).evaluate
  rwa [String.ofList_toList] at heval

/-! Numbers. -/

theorem Says.signed (make : Float → Value) (negative : Bool) (h : Says 7 text (make y))
    (hneg : (Operation.unary .neg).value? [make y] = some (make (-y))) :
    Says 7 (signed negative text) (make (if negative then -y else y)) := by
  cases negative
  · exact h
  · exact h.neg hneg

theorem signed_append (negative : Bool) (l l' : List Char) :
    signed negative l ++ l' = signed negative (l ++ l') := by
  cases negative <;> rfl

/-- `y` is what the text of `x` reads as. -/
structure Rereads (x y : Float) : Prop where
  reads : readNumber? (formatNumber x).toList = some y
  near : Near 11 x y

theorem says_formatNumber (hx : x.isFinite = true) :
    ∃ y, Rereads x y ∧ Says 7 (formatNumber x).toList (.scalar y) := by
  obtain ⟨negative, l, w, htext, hl, hread, hw, hnear⟩ := formatNumber_reads hx
  have hneg : (Operation.unary .neg).value? [.scalar w] = some (.scalar (-w)) :=
    value?_of_perform rfl (by simpa [Value.numbers] using (rational_neg hw).1)
  have hlist : (formatNumber x).toList = signed negative l := by rw [htext, String.toList_ofList]
  refine ⟨_, ⟨hlist ▸ hl.readNumber?_signed hread negative, hnear⟩, ?_⟩
  rw [hlist]
  exact (says_number hl hread).signed Value.scalar negative hneg

theorem says_length (hx : x.isFinite = true) (u : LengthUnit) :
    ∃ y, Rereads x y ∧ Says 7 ((formatNumber x).toList ++ u.symbol.toList) (.quantity (.length y u)) := by
  obtain ⟨negative, l, w, htext, hl, hread, hw, hnear⟩ := formatNumber_reads hx
  have hunit : (Operation.convert (.length u)).value? [.scalar w] = some (.quantity (.length w u)) :=
    value?_of_perform rfl (by simpa [Value.numbers, Quantity.length] using hw)
  have hneg : (Operation.unary .neg).value? [.quantity (.length w u)] = some (.quantity (.length (-w) u)) :=
    value?_of_perform rfl (by simpa [Value.numbers, Quantity.length] using (rational_neg hw).1)
  have hlist : (formatNumber x).toList = signed negative l := by rw [htext, String.toList_ofList]
  refine ⟨_, ⟨hlist ▸ hl.readNumber?_signed hread negative, hnear⟩, ?_⟩
  rw [hlist, signed_append]
  exact (says_suffixed hl hread hunit).signed (fun y => .quantity (.length y u)) negative hneg

theorem says_degrees (hx : x.isFinite = true) (hd : (toDegrees x).isFinite = true) :
    ∃ y, Near 10 x y ∧ Says 7 ((formatNumber (toDegrees x)).toList ++ "deg".toList) (.angle y) := by
  obtain ⟨negative, l, w, htext, hl, hread, hw, hnear⟩ := formatNumber_reads hd
  have hnear := near_toRadians hx hd hnear
  have hsame : (toRadians w).isFinite = true ∧
      Near 10 x (if negative then -toRadians w else toRadians w) := by
    cases negative
    · exact ⟨hnear.isFinite, hnear⟩
    · obtain ⟨hfinite, hvalue⟩ := toRadians_neg hw hnear.isFinite
      obtain ⟨hn, hnv⟩ := rational_neg hfinite
      exact ⟨hfinite, hnear.congr ⟨hn, hnv.trans hvalue.symm⟩⟩
  obtain ⟨hfinite, hnear⟩ := hsame
  have hunit : (Operation.convert .degrees).value? [.scalar w] = some (.angle (toRadians w)) :=
    value?_of_perform rfl (by simpa [Value.numbers] using hfinite)
  have hneg : (Operation.unary .neg).value? [.angle (toRadians w)] = some (.angle (-toRadians w)) :=
    value?_of_perform rfl (by simpa [Value.numbers] using (rational_neg hfinite).1)
  refine ⟨_, hnear, ?_⟩
  rw [htext, String.toList_ofList, signed_append]
  exact (says_suffixed hl hread hunit).signed Value.angle negative hneg

/-! Quantities. -/

theorem finite_quantity {k : Int32} (hx : x.isFinite = true) :
    ∀ y ∈ (Value.quantity ⟨x, u, k⟩).numbers, y.isFinite = true := by
  simpa [Value.numbers] using hx

theorem says_unit (u : LengthUnit) : Says 7 ('1' :: u.symbol.toList) (.quantity (.length 1 u)) := by
  have hnumeral : Numeral ['1'] := numeral_zeros rfl 0
  have hread : readNumber? ['1'] = some 1 := by decide
  have hunit : (Operation.convert (.length u)).value? [.scalar 1] = some (.quantity (.length 1 u)) :=
    value?_of_perform rfl (finite_quantity rational_one.1)
  have hsays := says_suffixed (k := 7) hnumeral hread hunit
  exact hsays

theorem inUnit_one (u : LengthUnit) : (Quantity.length 1 u).inUnit u = 1 := by
  have hone : (1 : Float) * 1 = 1 := rfl
  exact (inUnit_self (.length 1 u)).trans hone

/-- One unit more as a factor. -/
theorem value?_mul_unit (hx : x.isFinite = true) (k : Int32) :
    (Operation.binary .mul).value? [.quantity ⟨x, u, k⟩, .quantity (.length 1 u)] =
      some (.quantity ⟨x, u, k + 1⟩) := by
  have hproduct : Quantity.product ⟨x, u, k⟩ (.length 1 u) = ⟨x, u, k + 1⟩ := by
    rw [Quantity.product, inUnit_one, mul_one_eq hx]
    rfl
  exact value?_of_combine (congrArg (fun q => Except.ok (Value.quantity q)) hproduct) (finite_quantity hx)

theorem combine_div_quantity {a b q : Quantity} (h : a.quotient? b = some q) :
    combine .div (.quantity a) (.quantity b) = .ok (.quantity q) := by
  conv_lhs => whnf
  rw [h]

/-- One unit more as a divisor. -/
theorem value?_div_unit (hx : x.isFinite = true) (k : Int32) :
    (Operation.binary .div).value? [.quantity ⟨x, u, k⟩, .quantity (.length 1 u)] =
      some (.quantity ⟨x, u, k - 1⟩) := by
  have hone : ((1 : Float) == 0) = false := rfl
  have hquotient : Quantity.quotient? ⟨x, u, k⟩ (.length 1 u) = some ⟨x, u, k - 1⟩ := by
    rw [Quantity.quotient?, inUnit_one, hone, div_one_eq hx]
    rfl
  exact value?_of_combine (combine_div_quantity hquotient) (finite_quantity hx)

theorem value?_number_div_unit (hx : x.isFinite = true) (u : LengthUnit) :
    (Operation.binary .div).value? [.scalar x, .quantity (.length 1 u)] = some (.quantity ⟨x, u, -1⟩) := by
  have hone : nonZero 1 = .ok () := by
    have hne : ((1 : Float) == 0) = false := rfl
    rw [nonZero, hne]
    rfl
  have hcombine : combine .div (.scalar x) (.quantity (.length 1 u)) = .ok (.quantity ⟨x / 1, u, -1⟩) := by
    change (nonZero 1 >>= fun _ => pure (Value.quantity ⟨x / 1, u, -1⟩)) = _
    rw [hone]
    rfl
  rw [div_one_eq hx] at hcombine
  exact value?_of_combine hcombine (finite_quantity hx)

theorem toList_repeated_succ (n : ℕ) (piece : String) :
    (Quantity.repeated (n + 1) piece).toList = piece.toList ++ (Quantity.repeated n piece).toList := by
  simp [Quantity.repeated, List.replicate_succ, String.toList_join]

/-- The same unit over and over. -/
theorem says_repeated {op : BinaryOp} {next : Int32 → Int32} {piece : String}
    (hop : Symbol.binary op ∈ Symbol.lone) (hlevel : op.level = 6)
    (hpiece : piece.toList = ' ' :: (op.symbol.toList ++ ' ' :: '1' :: u.symbol.toList))
    (hstep : ∀ k, (Operation.binary op).value? [.quantity ⟨x, u, k⟩, .quantity (.length 1 u)] =
      some (.quantity ⟨x, u, next k⟩))
    (n : ℕ) {k : Int32} (h : Says 6 text (.quantity ⟨x, u, k⟩)) :
    Says 6 (text ++ (Quantity.repeated n piece).toList) (.quantity ⟨x, u, next^[n] k⟩) := by
  induction n generalizing text k with
  | zero => simpa [Quantity.repeated] using h
  | succ n ih =>
    have hsays := Says.binary hop (by rwa [hlevel]) (by rw [hlevel]; exact says_unit u) (hstep k)
    rw [hlevel, ← hpiece] at hsays
    rw [toList_repeated_succ, ← List.append_assoc]
    exact ih hsays

theorem iterate_add_one (a : ℤ) (n : ℕ) : (· + 1)^[n] (Int32.ofInt a) = Int32.ofInt (a + n) := by
  induction n with
  | zero => simp
  | succ n ih =>
    rw [Function.iterate_succ_apply', ih, Nat.cast_succ, ← add_assoc, Int32.ofInt_add (a + n)]
    rfl

theorem iterate_sub_one (a : ℤ) (n : ℕ) : (· - 1)^[n] (Int32.ofInt a) = Int32.ofInt (a - n) := by
  induction n with
  | zero => simp
  | succ n ih =>
    rw [Function.iterate_succ_apply', ih, Nat.cast_succ, ← sub_sub, Int32.ofInt_sub (a - n)]
    rfl

theorem toList_factor (u : LengthUnit) :
    (" * 1" ++ u.symbol).toList = ' ' :: (BinaryOp.mul.symbol.toList ++ ' ' :: '1' :: u.symbol.toList) :=
  String.toList_append

theorem toList_divisor (u : LengthUnit) :
    (" / 1" ++ u.symbol).toList = ' ' :: (BinaryOp.div.symbol.toList ++ ' ' :: '1' :: u.symbol.toList) :=
  String.toList_append

theorem says_quantity (hq : q.magnitude.isFinite = true) :
    ∃ y, Rereads q.magnitude y ∧ Says 6 q.formula.toList (.quantity ⟨y, q.unit, q.exponent⟩) := by
  have hexponent : Int32.ofInt q.exponent.toInt = q.exponent := Int32.ofInt_toInt _
  have hmul : Symbol.binary .mul ∈ Symbol.lone := by simp [Symbol.lone]
  have hdiv : Symbol.binary .div ∈ Symbol.lone := by simp [Symbol.lone]
  obtain ⟨y, hy, hlength⟩ := says_length hq q.unit
  have hfinite := hy.near.isFinite
  rw [Quantity.formula.eq_def]
  dsimp only
  split
  next hzero =>
    -- A quotient of two lengths is a ratio.
    have hsays := Says.binary hdiv (hlength.mono (by decide)) (says_unit q.unit) (value?_div_unit hfinite 1)
    have hratio : 1 - 1 = q.exponent := by
      rw [← hexponent, hzero]
      rfl
    rw [← toList_divisor, hratio] at hsays
    refine ⟨y, hy, ?_⟩
    rw [String.append_assoc, String.toList_append, String.toList_append]
    exact hsays
  next n hne hpos =>
    have hsays := says_repeated hmul rfl (toList_factor q.unit) (value?_mul_unit hfinite) (n - 1)
      (hlength.mono (by decide))
    have hcount : (· + 1)^[n - 1] 1 = q.exponent := by
      rw [← hexponent, hpos, Int.ofNat_eq_natCast]
      refine (iterate_add_one 1 (n - 1)).trans (congrArg Int32.ofInt ?_)
      have := Nat.pos_of_ne_zero hne
      omega
    refine ⟨y, hy, ?_⟩
    rw [String.toList_append, String.toList_append, ← hcount]
    exact hsays
  next n hneg =>
    obtain ⟨y, hy, hnumber⟩ := says_formatNumber hq
    have hfinite := hy.near.isFinite
    have hfirst := Says.binary hdiv (hnumber.mono (by decide)) (says_unit q.unit)
      (value?_number_div_unit hfinite q.unit)
    rw [← toList_divisor] at hfirst
    have hsays := says_repeated hdiv rfl (toList_divisor q.unit) (value?_div_unit hfinite) n hfirst
    have hcount : (· - 1)^[n] (-1) = q.exponent := by
      rw [← hexponent, hneg, Int.negSucc_eq]
      refine (iterate_sub_one (-1) n).trans (congrArg Int32.ofInt ?_)
      omega
    refine ⟨y, hy, ?_⟩
    rw [String.toList_append, toList_repeated_succ, ← List.append_assoc, ← hcount]
    exact hsays

/-- A quantity comes back in its unit and with its exponent; its magnitude is the number that is printed. -/
theorem evaluate_quantity_formula (hx : x.isFinite = true) (u : LengthUnit) (k : Int32) :
    ∃ y, readNumber? (formatNumber x).toList = some y ∧
      evaluate (Quantity.formula ⟨x, u, k⟩) = .ok (.quantity ⟨y, u, k⟩) := by
  obtain ⟨y, hy, hsays⟩ := says_quantity (q := ⟨x, u, k⟩) hx
  exact ⟨y, hy.reads, hsays.evaluate_toList⟩

theorem evaluate_quantity_formula_curvature : (-2.5 : Float).isFinite = true ∧
    ∃ y, readNumber? (formatNumber (-2.5)).toList = some y ∧
      evaluate (Quantity.formula ⟨-2.5, .inch, -3⟩) = .ok (.quantity ⟨y, .inch, -3⟩) :=
  have hfinite : (-2.5 : Float).isFinite = true := by decide
  ⟨hfinite, evaluate_quantity_formula hfinite .inch (-3)⟩

/-! Texts. -/

theorem contents_quoted (l : List Char) : Contents (l.flatMap Value.quotedChar) l := by
  induction l with
  | nil => exact .nil
  | cons c l ih =>
    rw [List.flatMap_cons, Value.quotedChar.eq_def]
    split
    · exact .escape (by decide) ih
    · exact .escape (by decide) ih
    · exact .escape (by decide) ih
    · exact .escape (by decide) ih
    next hquote hslash _ _ => exact .plain hquote hslash ih

theorem toList_text_formula (s : String) :
    (Value.text s).formula.toList = '"' :: (s.toList.flatMap Value.quotedChar ++ ['"']) := String.toList_ofList

theorem says_quoted (s : String) : Says 0 (Value.text s).formula.toList (.text s) := by
  have hsays := says_text (k := 0) (contents_quoted s.toList)
  rwa [String.ofList_toList, ← toList_text_formula] at hsays

theorem tokenize_text_formula (s : String) : tokenize (Value.text s).formula = .ok [⟨0, .text s⟩] := by
  have hlongest : Longest ((Value.text s).formula.toList ++ []) (Value.text s).formula.toList (.text s) := by
    have h := @longest_text [] _ _ (contents_quoted s.toList)
    rw [String.ofList_toList] at h
    rwa [List.append_nil, toList_text_formula]
  have hcuts := hlongest.cuts 0
  rw [List.append_nil] at hcuts
  exact hcuts.tokenize (by simp)

/-- A text comes back whatever it is made of, from a formula of one token. -/
theorem evaluate_text_formula (s : String) :
    evaluate (Value.text s).formula = .ok (.text s) ∧ tokenize (Value.text s).formula = .ok [⟨0, .text s⟩] :=
  ⟨(says_quoted s).evaluate_toList, tokenize_text_formula s⟩

/-! Values. -/

/-- The formula of the value spells an equal one of the same kind. -/
def Value.Recovered (v : Value) : Prop :=
  ∃ w, Says 0 v.formula.toList w ∧ w.kind = v.kind ∧ v.approxEq? w = some true

theorem Near.approxEq {k : ℕ} (h : Near k x y) (hx : x.isFinite = true) (hk : 10 ≤ k) : approxEq x y = true :=
  approxEq_of_near hx (h.mono hk)

theorem Near.approxEq_quantity (h : Near 11 q.magnitude y) (hq : q.magnitude.isFinite = true) :
    q.sameDimension ⟨y, q.unit, q.exponent⟩ = true ∧ q.approxEq ⟨y, q.unit, q.exponent⟩ = true := by
  have hunit : Near 11 q.magnitude ((⟨y, q.unit, q.exponent⟩ : Quantity).inUnit q.unit) :=
    (inUnit_self ⟨y, q.unit, q.exponent⟩).symm ▸ h.congr (rational_mul_one h.isFinite)
  have hsame : q.sameDimension ⟨y, q.unit, q.exponent⟩ = true := beq_self_eq_true q.exponent
  rw [Quantity.approxEq, hsame, hunit.approxEq hq (by decide)]
  exact ⟨rfl, rfl⟩

theorem recovered_scalar (hx : x.isFinite = true) : (Value.scalar x).Recovered := by
  obtain ⟨y, ⟨-, hnear⟩, hsays⟩ := says_formatNumber hx
  exact ⟨_, hsays.mono (Nat.zero_le _), rfl, congrArg some (hnear.approxEq hx (by decide))⟩

theorem recovered_quantity (hq : q.magnitude.isFinite = true) : (Value.quantity q).Recovered := by
  obtain ⟨y, ⟨-, hnear⟩, hsays⟩ := says_quantity hq
  obtain ⟨hsame, happrox⟩ := hnear.approxEq_quantity hq
  exact ⟨_, hsays.mono (Nat.zero_le _), rfl, (if_pos hsame).trans (congrArg some happrox)⟩

theorem toList_comma : ", ".toList = [',', ' '] := rfl

theorem toList_closing : ")".toList = [')'] := rfl

theorem recovered_point {x y : Quantity} (hx : x.magnitude.isFinite = true) (hy : y.magnitude.isFinite = true)
    (h : x.exponent = y.exponent) : (Value.point x y).Recovered := by
  obtain ⟨x', ⟨-, hxnear⟩, hxtext⟩ := says_quantity hx
  obtain ⟨y', ⟨-, hynear⟩, hytext⟩ := says_quantity hy
  obtain ⟨hxsame, hxapprox⟩ := hxnear.approxEq_quantity hx
  obtain ⟨hysame, hyapprox⟩ := hynear.approxEq_quantity hy
  have hsame : Quantity.sameDimension ⟨x', x.unit, x.exponent⟩ ⟨y', y.unit, y.exponent⟩ = true := beq_iff_eq.mpr h
  have hvalue : (Operation.builtin .dimension2).value? [.quantity ⟨x', x.unit, x.exponent⟩,
      .quantity ⟨y', y.unit, y.exponent⟩] = some (.point ⟨x', x.unit, x.exponent⟩ ⟨y', y.unit, y.exponent⟩) := by
    refine value?_of_perform (if_pos hsame) ?_
    simpa [Value.numbers] using ⟨hxnear.isFinite, hynear.isFinite⟩
  have hsays := ((hxtext.mono (Nat.zero_le _)).more (hytext.mono (Nat.zero_le _)).single).call
    (k := 0) .dimension2 hvalue
  refine ⟨.point ⟨x', x.unit, x.exponent⟩ ⟨y', y.unit, y.exponent⟩, ?_, rfl, ?_⟩
  · have hopening : "Dimension2(".toList = Builtin.dimension2.name.toList ++ ['('] := rfl
    have hformula : (Value.point x y).formula = "Dimension2(" ++ x.formula ++ ", " ++ y.formula ++ ")" := rfl
    simp only [hformula, String.toList_append, hopening, toList_comma, toList_closing, List.append_assoc,
      List.cons_append, List.nil_append]
    simpa only [List.append_assoc, List.cons_append] using hsays
  · exact (if_pos (Bool.and_eq_true_iff.mpr ⟨hxsame, hysame⟩)).trans
      (congrArg some (Bool.and_eq_true_iff.mpr ⟨hxapprox, hyapprox⟩))

theorem recovered_vector {p : Planar} (hx : p.x.isFinite = true) (hy : p.y.isFinite = true) :
    (Value.vector p).Recovered := by
  obtain ⟨x, ⟨-, hxnear⟩, hxtext⟩ := says_formatNumber hx
  obtain ⟨y, ⟨-, hynear⟩, hytext⟩ := says_formatNumber hy
  have hvalue : (Operation.builtin .vector).value? [.scalar x, .scalar y] = some (.vector ⟨x, y⟩) :=
    value?_of_perform rfl (by simpa [Value.numbers] using ⟨hxnear.isFinite, hynear.isFinite⟩)
  have hsays := ((hxtext.mono (Nat.zero_le _)).more (hytext.mono (Nat.zero_le _)).single).call
    (k := 0) .vector hvalue
  refine ⟨.vector ⟨x, y⟩, ?_, rfl, ?_⟩
  · have hopening : "Vector(".toList = Builtin.vector.name.toList ++ ['('] := rfl
    have hformula : (Value.vector p).formula = "Vector(" ++ formatNumber p.x ++ ", " ++ formatNumber p.y ++ ")" := rfl
    simp only [hformula, String.toList_append, hopening, toList_comma, toList_closing, List.append_assoc,
      List.cons_append, List.nil_append]
    simpa only [List.append_assoc, List.cons_append] using hsays
  · exact congrArg some (Bool.and_eq_true_iff.mpr
      ⟨hxnear.approxEq hx (by decide), hynear.approxEq hy (by decide)⟩)

theorem recovered_angle (hx : x.isFinite = true) (hd : (toDegrees x).isFinite = true) :
    (Value.angle x).Recovered := by
  obtain ⟨y, hnear, hsays⟩ := says_degrees hx hd
  rw [← String.toList_append] at hsays
  exact ⟨_, hsays.mono (Nat.zero_le _), rfl, congrArg some (hnear.approxEq hx (le_refl _))⟩

theorem Fraction.says_clamped (h : Fraction x) :
    ∃ y, Near 11 x (clamp y 0 1) ∧ Says 0 (formatNumber x).toList (.scalar y) := by
  obtain ⟨y, ⟨-, hnear⟩, hsays⟩ := says_formatNumber h.isFinite
  exact ⟨y, near_clamp h.nonneg h.le_one hnear, hsays.mono (Nat.zero_le _)⟩

theorem recovered_color (h : c.Bounded) : (Value.color c).Recovered := by
  obtain ⟨r, hrnear, hrtext⟩ := h.red.says_clamped
  obtain ⟨g, hgnear, hgtext⟩ := h.green.says_clamped
  obtain ⟨b, hbnear, hbtext⟩ := h.blue.says_clamped
  obtain ⟨a, hanear, hatext⟩ := h.alpha.says_clamped
  have hvalue : (Operation.builtin .color).value? [.scalar r, .scalar g, .scalar b, .scalar a] =
      some (.color (.clamped r g b a)) := value?_of_perform rfl (by simp [Value.numbers])
  have hsays := (hrtext.more (hgtext.more (hbtext.more hatext.single))).call (k := 0) .color hvalue
  refine ⟨.color (.clamped r g b a), ?_, rfl, ?_⟩
  · have hopening : "Color(".toList = Builtin.color.name.toList ++ ['('] := rfl
    have hformula : (Value.color c).formula = "Color(" ++ formatNumber c.red ++ ", " ++ formatNumber c.green ++
      ", " ++ formatNumber c.blue ++ ", " ++ formatNumber c.alpha ++ ")" := rfl
    simp only [hformula, String.toList_append, hopening, toList_comma, toList_closing, List.append_assoc,
      List.cons_append, List.nil_append]
    simpa only [List.append_assoc, List.cons_append] using hsays
  · have happrox : c.approxEq (.clamped r g b a) = true := by
      simp only [Color.approxEq, Color.clamped, hrnear.approxEq h.red.isFinite (by decide),
        hgnear.approxEq h.green.isFinite (by decide), hbnear.approxEq h.blue.isFinite (by decide),
        hanear.approxEq h.alpha.isFinite (by decide), Bool.and_self]
    exact congrArg some happrox

theorem recovered_bool (b : Bool) : (Value.bool b).Recovered :=
  ⟨_, says_bool b, rfl, congrArg some (beq_self_eq_true b)⟩

theorem recovered_text (s : String) : (Value.text s).Recovered :=
  ⟨_, says_quoted s, rfl, congrArg some (beq_self_eq_true s)⟩

/-! Numbers without a formula. -/

/-- The formula of the value has a finite number for its scalar, or for the degrees of its angle. -/
def Value.Spellable : Value → Prop
  | .scalar x => x.isFinite = true
  | .angle radians => (toDegrees radians).isFinite = true
  | _ => True

theorem Value.Sound.recovered (h : v.Sound) (hspellable : v.Spellable) : v.Recovered := by
  cases h with
  | scalar => exact recovered_scalar hspellable
  | quantity hq => exact recovered_quantity hq
  | point hx hy hsame => exact recovered_point hx hy hsame
  | vector hx hy => exact recovered_vector hx hy
  | angle hx => exact recovered_angle hx hspellable
  | color hc => exact recovered_color hc
  | bool b => exact recovered_bool b
  | text s => exact recovered_text s

theorem formatNumber_infinite (hx : x.isInf = true) : formatNumber x = "inf" ∨ formatNumber x = "-inf" := by
  obtain rfl | rfl := eq_infinity hx
  · exact .inl (by decide +kernel)
  · exact .inr (by decide +kernel)

/-- Infinite numbers are written as words that name nothing. -/
theorem evaluate_infinite : ∀ text ∈ ["inf", "-inf", "infdeg", "-infdeg"], (evaluate text).isOk = false := by
  decide +kernel

theorem evaluate_infinite_scalar (hx : x.isInf = true) : (evaluate (Value.scalar x).formula).isOk = false := by
  change (evaluate (formatNumber x)).isOk = false
  obtain h | h := formatNumber_infinite hx
  · rw [h]
    exact evaluate_infinite _ (by simp)
  · rw [h]
    exact evaluate_infinite _ (by simp)

theorem evaluate_infinite_angle (hx : (toDegrees x).isInf = true) :
    (evaluate (Value.angle x).formula).isOk = false := by
  change (evaluate (formatNumber (toDegrees x) ++ "deg")).isOk = false
  obtain h | h := formatNumber_infinite hx
  · rw [h]
    exact evaluate_infinite "infdeg" (by simp)
  · rw [h]
    exact evaluate_infinite "-infdeg" (by simp)

theorem isNaN_toDegrees (hx : x.isFinite = true) : (toDegrees x).isNaN = false :=
  (rounds_mul hx rational_degreesPerRadian.1).isNumber

theorem Value.Sound.spellable (h : v.Sound) (hw : evaluate v.formula = .ok w) : v.Spellable := by
  cases h with
  | scalar hx =>
    by_contra hinfinite
    have := evaluate_infinite_scalar (isInf_of_not_isFinite hx hinfinite)
    rw [hw] at this
    exact Bool.noConfusion this
  | angle hx =>
    by_contra hinfinite
    have := evaluate_infinite_angle (isInf_of_not_isFinite (isNaN_toDegrees hx) hinfinite)
    rw [hw] at this
    exact Bool.noConfusion this
  | quantity | point | vector | color | bool | text => trivial

theorem evaluate_vast :
    evaluate (String.ofList (('4' :: List.replicate 306 '0') ++ "rad".toList)) = .ok (.angle 4e306) := by
  have hread : readNumber? ('4' :: List.replicate 306 '0') = some 4e306 := by decide +kernel
  have hunit : (Operation.convert .radians).value? [.scalar 4e306] = some (.angle 4e306) := by decide +kernel
  exact (says_suffixed (k := 0) (numeral_zeros rfl 306) hread hunit).evaluate

/-- Evaluating the formula of a value gives an equal value of the same kind, unless the formula is of a number
that is too large: of an infinite scalar, or of an angle that is infinite in degrees. -/
theorem evaluate_formula_iff {f : String} (h : evaluate f = .ok v) :
    (∃ w, evaluate v.formula = .ok w ∧ w.kind = v.kind ∧ v.approxEq? w = some true) ↔ v.Spellable := by
  have hsound := sound_of_evaluate h
  constructor
  · rintro ⟨w, hw, -, -⟩
    exact hsound.spellable hw
  · intro hspellable
    obtain ⟨w, hsays, hkind, happrox⟩ := hsound.recovered hspellable
    have heval := hsays.evaluate
    rw [String.ofList_toList] at heval
    exact ⟨w, heval, hkind, happrox⟩

theorem evaluate_formula_area : evaluate "-2.5in * 3in" = .ok (.quantity ⟨-7.5, .inch, 2⟩) ∧
    ∃ w, evaluate (Value.quantity ⟨-7.5, .inch, 2⟩).formula = .ok w ∧
      w.kind = (Value.quantity ⟨-7.5, .inch, 2⟩).kind ∧ (Value.quantity ⟨-7.5, .inch, 2⟩).approxEq? w = some true :=
  have harea : evaluate "-2.5in * 3in" = .ok (.quantity ⟨-7.5, .inch, 2⟩) := toOption_eq_some.mp (by decide +kernel)
  ⟨harea, (evaluate_formula_iff harea).mpr trivial⟩

/-- An angle of 4e306 is finite in radians and infinite in degrees. -/
theorem evaluate_formula_vast : ¬ ∀ (f : String) (v : Value), evaluate f = .ok v →
    ∃ w, evaluate v.formula = .ok w ∧ w.kind = v.kind ∧ v.approxEq? w = some true := by
  intro hall
  obtain ⟨w, hw, -, -⟩ := hall _ _ evaluate_vast
  have hfails := evaluate_infinite_angle (x := 4e306) (by decide +kernel)
  rw [hw] at hfails
  exact Bool.noConfusion hfails

end FormulaGraph
