import FormulaGraph.Proofs.Assembling
import FormulaGraph.Proofs.Counting
import FormulaGraph.Proofs.Identities
import FormulaGraph.Proofs.Peeking

/-! Exponents compound through formulas that name one another. A product, a quotient or a reciprocal has just the
exponent it should have as long as that fits in 32 bits, and no exponent is more than the number of units in a formula
in which every name has been replaced by what it stands for. -/

namespace FormulaGraph

open FormulaGraph.Graph

/-- The exponent as a whole number. -/
def Quantity.power (q : Quantity) : Int := q.exponent.toInt

/-- Whether 32 bits hold the number. -/
def Wide (d : Int) : Prop := -2 ^ 31 ≤ d ∧ d < 2 ^ 31

def Value.powers : Value → List Int
  | quantity q => [q.power]
  | point x y => [x.power, y.power]
  | _ => []

/-- No exponent is further from zero than `k`. -/
def Value.Within (k : Nat) (v : Value) : Prop := ∀ d ∈ v.powers, d.natAbs ≤ k

/-- The exponent that the result should have, where it is not that of an operand. -/
def Operation.power? : Operation → List Value → Option Int
  | .binary .mul, [.quantity a, .quantity b] => some (a.power + b.power)
  | .binary .div, [.quantity a, .quantity b] => some (a.power - b.power)
  | .binary .div, [.scalar _, .quantity b] => some (-b.power)
  | _, _ => none

/-- The result has the exponent that whole numbers give, and a root half of an even one. -/
structure Operation.Exact (operation : Operation) (operands : List Value) (v : Value) : Prop where
  power (d : Int) : operation.power? operands = some d → ∃ q, v = .quantity q ∧ q.power = d
  root (a : Quantity) : operation = .builtin .sqrt → operands = [.quantity a] →
    ∃ q, v = .quantity q ∧ 2 * q.power = a.power

/-- The units that an operation brings in. -/
def Operation.units : Operation → Nat
  | convert (.length _) => 1
  | _ => 0

section

variable {d : Int} {q a b : Quantity}

theorem natAbs_bmod_le (d : Int) : (d.bmod (2 ^ 32)).natAbs ≤ d.natAbs := by
  rw [Int.bmod_def]
  split <;> omega

theorem bmod_eq_iff_wide : d.bmod (2 ^ 32) = d ↔ Wide d := by
  rw [Int.bmod_def, Wide]
  split <;> omega

theorem wide_of_natAbs_lt (h : d.natAbs < 2 ^ 31) : Wide d := by
  rw [Wide]
  omega

theorem power_product : (a.product b).power = (a.power + b.power).bmod (2 ^ 32) := Int32.toInt_add _ _

theorem power_quotient (h : a.quotient? b = some q) : q.power = (a.power - b.power).bmod (2 ^ 32) := by
  rw [Quantity.quotient?] at h
  split at h
  · cases h
  · cases h
    exact Int32.toInt_sub _ _

/-- What a number divided by a quantity has for its exponent. -/
theorem power_reciprocal {magnitude : Float} {unit : LengthUnit} :
    (Quantity.mk magnitude unit (-b.exponent)).power = (-b.power).bmod (2 ^ 32) := Int32.toInt_neg _

/-- Only an even exponent is halved, and so it is halved exactly. -/
theorem power_root (h : a.root? = some q) : 2 * q.power = a.power := by
  rw [Quantity.root?] at h
  split at h
  · cases h
  next heven =>
    cases h
    have hmod : a.exponent % 2 = 0 := by
      simp only [Bool.or_eq_true, bne_iff_ne, ne_eq, not_or, not_not] at heven
      exact heven.2
    obtain ⟨k, hk⟩ : (2 : Int) ∣ a.exponent.toInt := by
      have hint := congrArg Int32.toInt hmod
      rw [Int32.toInt_mod] at hint
      exact Int.dvd_of_tmod_eq_zero hint
    have hhalf : (a.exponent / 2).toInt = (a.exponent.toInt.tdiv 2).bmod (2 ^ 32) := Int32.toInt_div _ _
    rw [hk, Int.mul_tdiv_cancel_left k (by decide)] at hhalf
    have hlow := a.exponent.le_toInt
    have hhigh := a.exponent.toInt_lt
    have hwide : Wide k := by
      rw [Wide]
      omega
    rw [Quantity.power, Quantity.power, hhalf, bmod_eq_iff_wide.mpr hwide, hk]

theorem power_joinQuantities {op : BinaryOp} (h : joinQuantities op a b = .ok q) : q.power = a.power :=
  congrArg Int32.toInt (exponent_joinQuantities h)

end

section

variable {k k' : Nat} {v a b : Value} {q x y : Quantity}

theorem Value.Within.mono (h : v.Within k) (hk : k ≤ k') : v.Within k' := fun d hd => Nat.le_trans (h d hd) hk

theorem Value.Within.of_none (h : v.powers = []) : v.Within k := by
  intro d hd
  rw [h] at hd
  cases hd

theorem within_quantity : (Value.quantity q).Within k ↔ q.power.natAbs ≤ k := by
  simp [Value.Within, Value.powers]

theorem within_point : (Value.point x y).Within k ↔ x.power.natAbs ≤ k ∧ y.power.natAbs ≤ k := by
  simp [Value.Within, Value.powers]

/-- The result keeps within the bound, if there is one. -/
def Bounded (k : Nat) (x : Applied) : Prop := ∀ v, x = .ok v → v.Within k

namespace Bounded

theorem ok (h : v.Within k) : Bounded k (.ok v) := fun _ he => Except.ok.inj he ▸ h

theorem error (fault : ValueFault) : Bounded k (.error fault) := fun _ he => by cases he

theorem bind {α : Type} {x : Except ValueFault α} {f : α → Applied} (h : ∀ a, x = .ok a → Bounded k (f a)) :
    Bounded k (x >>= f) := by
  cases hx : x with
  | error fault => exact .error fault
  | ok a => exact h a hx

theorem ite {b : Bool} {x y : Applied} (hx : Bounded k x) (hy : Bounded k y) :
    Bounded k (if b = true then x else y) := by
  cases b
  · exact hy
  · exact hx

/-- Most kinds of values have no exponent. -/
theorem none (h : v.powers = []) : Bounded k (.ok v) := .ok (.of_none h)

end Bounded

/-! Operators. -/

theorem bounded_joined (op : BinaryOp) {a b : Quantity} (ha : (Value.quantity a).Within k) :
    Bounded k (do return .quantity (← joinQuantities op a b)) :=
  .bind fun q hq => .ok <| within_quantity.mpr <| by
    rw [power_joinQuantities hq]
    exact within_quantity.mp ha

theorem bounded_joined_points (op : BinaryOp) {x y x' y' : Quantity} (h : (Value.point x y).Within k) :
    Bounded k (do return .point (← joinQuantities op x x') (← joinQuantities op y y')) :=
  .bind fun _ hx => .bind fun _ hy => .ok <| within_point.mpr <| by
    rw [power_joinQuantities hx, power_joinQuantities hy]
    exact within_point.mp h

/-- Both axes have the exponent of the quantity. -/
theorem Value.Within.axes (h : (Value.quantity q).Within k) (hx : x.power = q.power) (hy : y.power = q.power) :
    (Value.point x y).Within k := by
  rw [within_point, hx, hy]
  exact ⟨within_quantity.mp h, within_quantity.mp h⟩

theorem within_product {a b : Quantity} (ha : (Value.quantity a).Within k) (hb : (Value.quantity b).Within k') :
    (Value.quantity (a.product b)).Within (k + k') := by
  have hbmod := natAbs_bmod_le (a.power + b.power)
  rw [within_quantity] at ha hb ⊢
  rw [power_product]
  omega

theorem bounded_quotient {a b : Quantity} (ha : (Value.quantity a).Within k) (hb : (Value.quantity b).Within k') :
    Bounded (k + k') (match a.quotient? b with
      | some q => .ok (.quantity q)
      | none => .error .divisionByZero) := by
  cases hq : a.quotient? b with
  | none => exact .error _
  | some q =>
    refine .ok ?_
    have hbmod := natAbs_bmod_le (a.power - b.power)
    rw [within_quantity] at ha hb ⊢
    rw [power_quotient hq]
    omega

theorem within_reciprocal {magnitude : Float} {unit : LengthUnit} (h : (Value.quantity q).Within k) :
    (Value.quantity ⟨magnitude, unit, -q.exponent⟩).Within k := by
  have hbmod := natAbs_bmod_le (-q.power)
  rw [within_quantity] at h ⊢
  rw [power_reciprocal]
  omega

theorem bounded_arithmetic (op : BinaryOp) (ha : a.Within k) (hb : b.Within k') :
    Bounded (k + k') (arithmetic op a b) := by
  have ha' := ha.mono (Nat.le_add_right k k')
  have hb' := hb.mono (Nat.le_add_left k' k)
  rw [arithmetic.eq_def]
  -- Only products, quotients and reciprocals have an exponent of their own.
  split
  all_goals first
    | exact .error _
    | exact .none rfl
    | exact .bind fun _ _ => .none rfl
    | exact .ite (.none rfl) (.error _)
    | exact bounded_joined _ ha'
    | exact bounded_joined_points _ ha'
    | exact .ok ha'
    | exact .ok hb'
    | exact .bind fun _ _ => .ok ha'
    | exact .ok (ha'.axes rfl rfl)
    | exact .ok (hb'.axes rfl rfl)
    | skip
  · exact .ok (within_product ha hb)
  · exact bounded_quotient ha hb
  · exact .bind fun _ _ => .ok (within_reciprocal hb')

theorem bounded_combine (op : BinaryOp) (ha : a.Within k) (hb : b.Within k') : Bounded (k + k') (combine op a b) := by
  have hcompare : ∀ op test, Bounded (k + k') (compareWith op test a b) := fun op test => by
    rw [compareWith]
    split
    · exact .none rfl
    · exact .error _
  cases op with
  | add | sub | mul | div => exact bounded_arithmetic _ ha hb
  | eq | ne => exact .bind fun _ _ => .none rfl
  | lt | gt | le | ge => exact hcompare _ _
  | and | or =>
    rw [combine.eq_def]
    dsimp only
    split
    · exact .none rfl
    · exact .error _

theorem bounded_binary (op : BinaryOp) (ha : a.Within k) (hb : b.Within k') : Bounded (k + k') (op.apply a b) :=
  .bind fun w hw _ hv => (checkFinite_iff.mp hv).1 ▸ bounded_combine op ha hb w hw

theorem bounded_unary (op : UnaryOp) (ha : a.Within k) : Bounded k (op.apply a) := by
  rw [UnaryOp.apply.eq_def]
  split
  all_goals first
    | exact .error _
    | exact .none rfl
    | exact .ok ha

/-! Members, functions and units. -/

theorem bounded_field (f : Field) (ha : a.Within k) : Bounded k (f.read a) := by
  rw [Field.read.eq_def]
  split
  all_goals first
    | exact .error _
    | exact .none rfl
    | exact .ok (within_quantity.mpr (within_point.mp ha).1)
    | exact .ok (within_quantity.mpr (within_point.mp ha).2)

theorem bounded_normalised (p : Planar) : Bounded k (normalised p) := by
  rw [normalised]
  split
  · exact .none rfl
  · exact .error _

theorem bounded_alike {v : Planar} (h : (Value.point x y).Within k) : (pointAlike v x).Within k :=
  within_point.mpr ⟨(within_point.mp h).1, (within_point.mp h).1⟩

theorem bounded_method {arguments : List Value} (m : Method) (ha : a.Within k) : Bounded k (m.call a arguments) := by
  rw [Method.call.eq_def]
  split
  · split
    all_goals first
      | exact .error _
      | exact .none rfl
      | exact .bind fun _ _ => .none rfl
      | exact bounded_normalised _
      | exact .ok ha
      | skip
    · exact .bind fun _ _ => .ok (bounded_alike ha)
    · split
      · exact .ite (.ok (within_quantity.mpr (within_point.mp ha).1)) (.error _)
      · exact .error _
    · split
      · exact .none rfl
      · exact .error _
  · exact .error _

theorem bounded_pointOf (x y : Quantity) (hx : (Value.quantity x).Within k) (hy : (Value.quantity y).Within k) :
    Bounded k (if x.sameDimension y then .ok (.point x y) else .error .axisDimensions) :=
  .ite (.ok (within_point.mpr ⟨within_quantity.mp hx, within_quantity.mp hy⟩)) (.error _)

theorem bounded_chosen (condition : Bool) (ha : a.Within k) (hb : b.Within k) :
    Bounded k (.ok (if condition then a else b)) := by
  cases condition
  · exact .ok hb
  · exact .ok ha

/-- A root has half the exponent. -/
theorem bounded_root (h : (Value.quantity q).Within k) :
    Bounded k (match q.root? with
      | some root => .ok (.quantity root)
      | none => .error (.quantityRoot q)) := by
  cases hroot : q.root? with
  | none => exact .error _
  | some root =>
    have hhalf := power_root hroot
    refine .ok ?_
    rw [within_quantity] at h ⊢
    omega

theorem bounded_builtin {arguments : List Value} (f : Builtin) (h : ∀ b ∈ arguments, b.Within k) :
    Bounded k (f.call arguments) := by
  have habs : ∀ q, (Value.quantity q).Within k → (Value.quantity q.abs).Within k := fun _ hq => hq
  rw [Builtin.call.eq_def]
  split
  · split
    all_goals first
      | exact .error _
      | exact .none rfl
      | exact .bind fun _ _ => .bind fun _ _ => .none rfl
      | exact .bind fun _ _ => .bind fun _ _ => .bind fun _ _ => .none rfl
      | exact .bind fun _ _ => .bind fun _ _ => .bind fun _ _ => .bind fun _ _ => .none rfl
      | exact .ite (.error _) (.none rfl)
      | exact bounded_pointOf _ _ (h _ (by simp)) (h _ (by simp))
      | exact bounded_root (h _ (by simp))
      | exact .bind fun _ _ => bounded_chosen _ (h _ (by simp)) (h _ (by simp))
      | exact .ok (habs _ (h _ (by simp)))
      | exact .ok (h _ (by simp))
  · exact .error _

theorem bounded_attach (suffix : Suffix) (a : Value) :
    Bounded (Operation.convert suffix).units (suffix.attach a) := by
  rw [Suffix.attach.eq_def]
  split
  · split
    · exact .ok (within_quantity.mpr (show (1 : Int32).toInt.natAbs ≤ 1 by decide))
    · exact .none rfl
    · exact .none rfl
  · exact .error _

/-- The bounds of the operands add up. -/
inductive WithinAll : List Value → Nat → Prop
  | nil : WithinAll [] 0
  | cons {v : Value} {values : List Value} {k l : Nat} (h : v.Within k) (hs : WithinAll values l) :
    WithinAll (v :: values) (k + l)

theorem WithinAll.each {values : List Value} (h : WithinAll values k) : ∀ v ∈ values, v.Within k := by
  induction h with
  | nil => exact fun v hv => (List.not_mem_nil hv).elim
  | cons h hs ih =>
    intro v hv
    rcases List.mem_cons.mp hv with rfl | hv
    · exact h.mono (Nat.le_add_right ..)
    · exact (ih v hv).mono (Nat.le_add_left ..)

theorem bounded_perform {operands : List Value} (operation : Operation) (h : WithinAll operands k) :
    Bounded (operation.units + k) (operation.perform operands) := by
  have hle : k ≤ operation.units + k := Nat.le_add_left ..
  have heach := fun v hv => (h.each v hv).mono hle
  rw [Operation.perform.eq_def]
  split
  · cases h with
    | cons ha h =>
      cases h with
      | cons hb h => exact fun v hv => (bounded_binary _ ha hb v hv).mono (by omega)
  · exact bounded_unary _ (heach _ (by simp))
  · exact bounded_field _ (heach _ (by simp))
  · exact bounded_method _ (heach _ (by simp))
  · exact bounded_builtin _ heach
  · exact fun v hv => (bounded_attach _ _ v hv).mono (Nat.le_add_right ..)
  · exact .error _

/-- Operations bring exponents no further than those of the operands together, but for a unit. -/
theorem within_of_apply {operation : Operation} {operands : List Value} (h : WithinAll operands k)
    (hv : operation.apply operands = .ok v) : v.Within (operation.units + k) :=
  bounded_perform operation h v (operation.perform_of_apply hv).1

end

/-! Results of operations that have an exponent of their own. -/

theorem combine_of_apply {op : BinaryOp} {a b v : Value} (hv : (Operation.binary op).apply [a, b] = .ok v) :
    combine op a b = .ok v := by
  have hperform : op.apply a b = .ok v := (Operation.perform_of_apply hv).1
  rw [BinaryOp.apply] at hperform
  cases hw : combine op a b with
  | error fault =>
    rw [hw] at hperform
    cases hperform
  | ok w =>
    rw [hw] at hperform
    rw [(checkFinite_iff.mp hperform).1]

theorem nonZero_bind {x : Float} {w : Applied} {v : Value} (h : (nonZero x >>= fun _ => w) = .ok v) : w = .ok v := by
  rw [nonZero] at h
  split at h
  · cases h
  · exact h

/-- The result has the exponent that it should have, wrapped to 32 bits. -/
theorem power_of_apply {operation : Operation} {operands : List Value} {v : Value} {d : Int}
    (hd : operation.power? operands = some d) (hv : operation.apply operands = .ok v) :
    ∃ q, v = .quantity q ∧ q.power = d.bmod (2 ^ 32) := by
  unfold Operation.power? at hd
  split at hd
  next a b =>
    cases hd
    obtain rfl := Except.ok.inj (combine_of_apply hv)
    exact ⟨_, rfl, power_product⟩
  next a b =>
    cases hd
    have hcombine : (match a.quotient? b with
        | some q => Except.ok (Value.quantity q)
        | none => .error ValueFault.divisionByZero) = .ok v := combine_of_apply hv
    cases hq : a.quotient? b with
    | none =>
      rw [hq] at hcombine
      cases hcombine
    | some q =>
      rw [hq] at hcombine
      obtain rfl := Except.ok.inj hcombine
      exact ⟨q, rfl, power_quotient hq⟩
  next s b =>
    cases hd
    have hcombine := nonZero_bind (combine_of_apply hv)
    obtain rfl := Except.ok.inj hcombine
    exact ⟨_, rfl, power_reciprocal⟩
  next => cases hd

/-- A square root that there is has just half the exponent. -/
theorem power_of_sqrt {a : Quantity} {v : Value} (hv : (Operation.builtin .sqrt).apply [.quantity a] = .ok v) :
    ∃ q, v = .quantity q ∧ 2 * q.power = a.power := by
  have hperform : (match a.root? with
      | some root => Except.ok (Value.quantity root)
      | none => .error (ValueFault.quantityRoot a)) = .ok v := (Operation.perform_of_apply hv).1
  cases hroot : a.root? with
  | none =>
    rw [hroot] at hperform
    cases hperform
  | some root =>
    rw [hroot] at hperform
    obtain rfl := Except.ok.inj hperform
    exact ⟨root, rfl, power_root hroot⟩

/-! Formulas that name one another. -/

namespace Graph

mutual

/-- A formula for the node in which every name is replaced by what it stands for has at most `k` units. A constant
and a variable count by their exponents. -/
inductive Amounts (g : Graph) : NodeId → Nat → Prop
  | constant {n : NodeId} {v : Value} {k : Nat} (hn : g.node n = .constant v) (h : v.Within k) : Amounts g n k
  | input {n : NodeId} {v : Value} {k : Nat} (hn : g.node n = .input v) (h : v.Within k) : Amounts g n k
  | calculation {n : NodeId} {operation : Operation} {operands : List NodeId} {offset k : Nat}
    {tickets : List Ticket} (hn : g.node n = .calculation operation operands offset tickets)
    (hs : AmountsAll g operands k) : Amounts g n (operation.units + k)
  | expression {n : NodeId} {scope : RecordId} {tree : Tree} {k : Nat}
    (hn : g.node n = .expression scope (.built tree)) (h : Amounts g tree.root k) : Amounts g n k

inductive AmountsAll (g : Graph) : List NodeId → Nat → Prop
  | nil : AmountsAll g [] 0
  | cons {n : NodeId} {rest : List NodeId} {k l : Nat} (h : Amounts g n k) (hs : AmountsAll g rest l) :
    AmountsAll g (n :: rest) (k + l)

end

variable {g : Graph} {n d : NodeId} {k : Nat} {v : Value}

section

theorem Amounts.of_constant (h : g.Amounts n k) (hn : g.node n = .constant v) : v.Within k := by
  cases h with
  | constant hn' h => exact Node.constant.inj (hn'.symm.trans hn) ▸ h
  | input hn' | calculation hn' | expression hn' => cases hn'.symm.trans hn

theorem Amounts.of_input (h : g.Amounts n k) (hn : g.node n = .input v) : v.Within k := by
  cases h with
  | input hn' h => exact Node.input.inj (hn'.symm.trans hn) ▸ h
  | constant hn' | calculation hn' | expression hn' => cases hn'.symm.trans hn

theorem Amounts.of_calculation {operation : Operation} {operands : List NodeId} {offset : Nat} {tickets : List Ticket}
    (h : g.Amounts n k) (hn : g.node n = .calculation operation operands offset tickets) :
    ∃ l, g.AmountsAll operands l ∧ k = operation.units + l := by
  cases h with
  | calculation hn' hs =>
    obtain ⟨rfl, rfl, rfl, -⟩ := Node.calculation.inj (hn'.symm.trans hn)
    exact ⟨_, hs, rfl⟩
  | constant hn' | input hn' | expression hn' => cases hn'.symm.trans hn

theorem Amounts.of_expression {scope : RecordId} {tree : Tree} (h : g.Amounts n k)
    (hn : g.node n = .expression scope (.built tree)) : g.Amounts tree.root k := by
  cases h with
  | expression hn' h =>
    obtain ⟨-, hsource⟩ := Node.expression.inj (hn'.symm.trans hn)
    obtain rfl := Source.built.inj hsource
    exact h
  | constant hn' | input hn' | calculation hn' => cases hn'.symm.trans hn

end

mutual

/-- No exponent is more than there are units. -/
theorem Evaluates.within {n : NodeId} {k : Nat} {r : Checked Value} :
    g.Evaluates n r → g.Amounts n k → ∀ v, r = .ok v → v.Within k
  | .constant hn, h, _, hv => Except.ok.inj hv ▸ h.of_constant hn
  | .input hn, h, _, hv => Except.ok.inj hv ▸ h.of_input hn
  | .calculation (r := rs) hn hs, h, v, hv => by
    obtain ⟨l, hl, rfl⟩ := h.of_calculation hn
    have hvalues := hs.within hl
    cases rs with
    | error e => cases hv
    | ok values => exact within_of_apply (hvalues values rfl) (toOption_eq_some.mp (toOption_of_applyAt hv))
  | .expression hn hr, h, v, hv => hr.within (h.of_expression hn) v (ok_of_mapError hv)

theorem EvaluatesAll.within {nodes : List NodeId} {k : Nat} {r : Checked (List Value)} :
    g.EvaluatesAll nodes r → g.AmountsAll nodes k → ∀ values, r = .ok values → WithinAll values k
  | .nil, .nil, _, hv => by
    cases hv
    exact .nil
  | .failed h, _, _, hv => by cases hv
  | .cons (r := rest) h hs, .cons hn hrest, values, hv => by
    have hfirst := h.within hn _ rfl
    have hvalues := hs.within hrest
    cases rest with
    | error e => cases hv
    | ok rest =>
      cases hv
      exact .cons hfirst (hvalues rest rfl)

end

theorem Value.exists_within (v : Value) : ∃ k, v.Within k := by
  refine ⟨(v.powers.map Int.natAbs).sum, fun d hd => ?_⟩
  exact List.le_sum_of_mem (List.mem_map_of_mem hd)

mutual

/-- What can be worked out can be written out. -/
theorem Evaluates.amounts {n : NodeId} {r : Checked Value} : g.Evaluates n r → ∀ v, r = .ok v → ∃ k, g.Amounts n k
  | .constant hn, v, _ => ⟨_, .constant hn (Value.exists_within _).choose_spec⟩
  | .input hn, v, _ => ⟨_, .input hn (Value.exists_within _).choose_spec⟩
  | .calculation (r := rs) hn hs, v, hv => by
    have hall := hs.amounts
    cases rs with
    | error e => cases hv
    | ok values =>
      obtain ⟨k, hk⟩ := hall values rfl
      exact ⟨_, .calculation hn hk⟩
  | .expression hn hr, v, hv => by
    obtain ⟨k, hk⟩ := hr.amounts v (ok_of_mapError hv)
    exact ⟨k, .expression hn hk⟩

theorem EvaluatesAll.amounts {nodes : List NodeId} {r : Checked (List Value)} :
    g.EvaluatesAll nodes r → ∀ values, r = .ok values → ∃ k, g.AmountsAll nodes k
  | .nil, _, _ => ⟨0, .nil⟩
  | .failed h, _, hv => by cases hv
  | .cons (r := rest) h hs, values, hv => by
    obtain ⟨k, hk⟩ := h.amounts _ rfl
    have hall := hs.amounts
    cases rest with
    | error e => cases hv
    | ok rest =>
      obtain ⟨l, hl⟩ := hall rest rfl
      exact ⟨k + l, .cons hk hl⟩

end

theorem AmountsAll.each {nodes : List NodeId} (h : g.AmountsAll nodes k) (hd : d ∈ nodes) :
    ∃ l ≤ k, g.Amounts d l := by
  induction nodes generalizing k with
  | nil => cases hd
  | cons m nodes ih =>
    cases h with
    | @cons _ _ k l hm hs =>
      rcases List.mem_cons.mp hd with rfl | hd
      · exact ⟨k, Nat.le_add_right .., hm⟩
      · obtain ⟨l', hle, hl'⟩ := ih hs hd
        exact ⟨l', Nat.le_trans hle (Nat.le_add_left ..), hl'⟩

/-- What a node reads has no more units than the node. -/
theorem Amounts.of_uses (h : g.Amounts n k) (hd : g.Uses n d) : ∃ l ≤ k, g.Amounts d l := by
  rw [Uses, dependencies] at hd
  cases h with
  | constant hn | input hn =>
    rw [hn] at hd
    cases hd
  | calculation hn hs =>
    rw [hn] at hd
    obtain ⟨l, hle, hl⟩ := hs.each hd
    exact ⟨l, Nat.le_trans hle (Nat.le_add_left ..), hl⟩
  | expression hn h =>
    rw [hn] at hd
    rw [List.mem_singleton.mp hd]
    exact ⟨k, Nat.le_refl _, h⟩

theorem Amounts.reached (h : g.Amounts n k) (hd : Relation.ReflTransGen g.Uses n d) : ∃ l ≤ k, g.Amounts d l := by
  induction hd with
  | refl => exact ⟨k, Nat.le_refl _, h⟩
  | tail _ hstep ih =>
    obtain ⟨l, hle, hl⟩ := ih
    obtain ⟨l', hle', hl'⟩ := hl.of_uses hstep
    exact ⟨l', Nat.le_trans hle' hle, hl'⟩

end Graph

theorem WithinAll.pair {a b : Value} {k : Nat} (h : WithinAll [a, b] k) :
    ∃ i j, a.Within i ∧ b.Within j ∧ i + j = k := by
  cases h with
  | cons ha h =>
    cases h with
    | cons hb h =>
      cases h
      exact ⟨_, _, ha, hb, rfl⟩

/-- An exponent that a result should have is no further from zero than those of the operands together. -/
theorem WithinAll.natAbs_power_le {operation : Operation} {values : List Value} {k : Nat} {d : Int}
    (h : WithinAll values k) (hd : operation.power? values = some d) : d.natAbs ≤ k := by
  unfold Operation.power? at hd
  split at hd
  next a b =>
    cases hd
    obtain ⟨i, j, ha, hb, rfl⟩ := h.pair
    rw [within_quantity] at ha hb
    omega
  next a b =>
    cases hd
    obtain ⟨i, j, ha, hb, rfl⟩ := h.pair
    rw [within_quantity] at ha hb
    omega
  next s b =>
    cases hd
    obtain ⟨i, j, -, hb, rfl⟩ := h.pair
    rw [within_quantity] at hb
    omega
  next => cases hd

/-- Exponents are exact as long as they fit in 32 bits. -/
theorem exact_iff_wide {operation : Operation} {operands : List Value} {v : Value}
    (hv : operation.apply operands = .ok v) :
    operation.Exact operands v ↔ ∀ d, operation.power? operands = some d → Wide d := by
  constructor
  · intro hexact d hd
    obtain ⟨q, rfl, hpower⟩ := hexact.power d hd
    exact hpower ▸ ⟨q.exponent.le_toInt, q.exponent.toInt_lt⟩
  · refine fun hwide => ⟨fun d hd => ?_, ?_⟩
    · obtain ⟨q, hq, hpower⟩ := power_of_apply hd hv
      exact ⟨q, hq, hpower.trans (bmod_eq_iff_wide.mpr (hwide d hd))⟩
    · rintro a rfl rfl
      exact power_of_sqrt hv

namespace Graph

/-- Whatever is calculated below the node has an exact exponent. -/
def ExactBelow (g : Graph) (n : NodeId) : Prop :=
  ∀ m operation operands offset tickets values v, g.dependsOn n m = true →
    g.node m = .calculation operation operands offset tickets → g.EvaluatesAll operands (.ok values) →
      operation.apply values = .ok v → operation.Exact values v

/-- Nothing overflows as long as a formula has fewer than 2³¹ units with all names written out. -/
theorem Amounts.exactBelow {g : Graph} {n : NodeId} {units : Nat} (h : g.Amounts n units) (hunits : units < 2 ^ 31) :
    g.ExactBelow n := by
  intro m operation operands offset tickets values v hm hnode hs hv
  obtain ⟨k, hle, hk⟩ := h.reached (dependsOn_iff.mp hm)
  obtain ⟨l, hl, rfl⟩ := hk.of_calculation hnode
  refine (exact_iff_wide hv).mpr fun d hd => wide_of_natAbs_lt ?_
  have hbound := (hs.within hl values rfl).natAbs_power_le hd
  omega

end Graph

/-- The length of a millimetre, squared so many times over. -/
def squares : Nat → Quantity
  | 0 => .length 1 .millimetre
  | i + 1 => (squares i).product (squares i)

theorem squares_eq (i : Nat) : squares i = ⟨1, .millimetre, Int32.ofInt (2 ^ i)⟩ := by
  induction i with
  | zero => rfl
  | succ i ih =>
    have hone : Quantity.inUnit ⟨1, .millimetre, Int32.ofInt (2 ^ i)⟩ .millimetre = 1 :=
      (inUnit_self _).trans (Double.mul_one 1)
    rw [squares, ih, Quantity.product, hone, Double.mul_one, ← Int32.ofInt_add, ← Int.two_mul, Int.pow_succ,
      Int.mul_comm]

theorem apply_squares (i : Nat) :
    (Operation.binary .mul).apply [.quantity (squares i), .quantity (squares i)] =
      .ok (.quantity (squares (i + 1))) := by
  have hfinite : checkFinite (.quantity (squares (i + 1))) = .ok (.quantity (squares (i + 1))) :=
    checkFinite_iff.mpr ⟨rfl, fun x hx => by
      rw [squares_eq] at hx
      rw [List.mem_singleton.mp hx]
      exact (by decide : (1 : Float).isFinite = true)⟩
  have hproduct : BinaryOp.mul.apply (.quantity (squares i)) (.quantity (squares i)) =
      .ok (.quantity (squares (i + 1))) := hfinite
  rw [Operation.apply, Operation.perform, hproduct]
  exact hfinite

/-- Where each formula is the square of the one before, the exponent doubles until it turns negative. -/
theorem not_exact_squares :
    (∀ i, (Operation.binary .mul).apply [.quantity (squares i), .quantity (squares i)] =
        .ok (.quantity (squares (i + 1)))) ∧
      (squares 31).power ≠ (squares 30).power + (squares 30).power :=
  ⟨apply_squares, by rw [squares_eq, squares_eq]; decide⟩

namespace Workspace

/-- A result has the exponent that whole numbers give if and only if that fits in 32 bits, and a root always has half
the exponent. No value that is read has an exponent further from zero than there are units in its formula with all
names written out, and if these are fewer than 2³¹, all exponents that it comes from are exact. -/
theorem exponents_of_read {k : Nat} {steps : List Step} {tasks : List Task} {w : Workspace}
    (h : after k (steps.map .perform) {} = (tasks, w)) {id : String} {n : NodeId} (hn : w.handles[id]? = some n)
    {v : Value} {g : Graph} (hr : w.graph.read n = (.ok v, g))
    (huntold : ∀ d, g.dependsOn n d = true → .tell (.node d) ∉ tasks) :
    (∀ operation operands u, Operation.apply operation operands = .ok u →
        (operation.Exact operands u ↔ ∀ d, operation.power? operands = some d → Wide d)) ∧
      (∃ units, g.Amounts n units) ∧
        ∀ units, g.Amounts n units → v.Within units ∧ (units < 2 ^ 31 → g.ExactBelow n) := by
  obtain ⟨hsound, horderly⟩ := sound_after (P := fun w => w.graph.Orderly)
    (fun _ _ task _ hw hg => advance_endures Graph.endures_orderly task hw hg) orderly_empty k steps
  rw [h] at hsound horderly
  have hheld : .node n ∈ tasks.flatMap Task.holds ++ w.holds := List.mem_append_right _ (mem_holds_of_handle hn)
  obtain ⟨hsound', -, hkept⟩ := readNode_reads hsound (.outside hheld)
  have horderly' := horderly.read hsound (.outside hheld)
  rw [Graph.read] at hr horderly'
  rw [hr] at hsound' hkept horderly'
  have hevaluates : g.Evaluates n (.ok v) :=
    hsound'.evaluates_of_has horderly' (hsound'.accounts.node_live hheld) (hkept v rfl) fun d hd hmem =>
      huntold d (dependsOn_iff.mpr hd) (mem_of_told hmem)
  refine ⟨fun _ _ _ => exact_iff_wide, hevaluates.amounts v rfl, fun units hunits => ?_⟩
  exact ⟨hevaluates.within hunits v rfl, hunits.exactBelow⟩

/-- A formula with two units of its own, and one that names it twice. -/
def reciprocalSteps : List Step :=
  [.record "r" none, .expression "r" "a" "a" "2mm * 3mm", .expression "r" "b" "b" "sqrt(1 / (a * a))"]

theorem exponents_of_reciprocal :
    ∃ w n v g units, after 10 (reciprocalSteps.map .perform) {} = ([], w) ∧ w.handles["b"]? = some n ∧
      w.graph.read n = (.ok v, g) ∧ (v.asQuantity?.map Quantity.power) = some (-2) ∧ g.Amounts n units ∧
        v.Within units := by
  have hread : (match after 10 (reciprocalSteps.map .perform) {} with
      | ([], w) => w.handles["b"]?.map fun n =>
        ((w.graph.read n).1.toOption.bind Value.asQuantity?).map Quantity.power
      | (_ :: _, _) => none) = some (some (-2)) := by
    decide +kernel
  rcases hafter : after 10 (reciprocalSteps.map .perform) {} with ⟨_ | ⟨task, tasks⟩, w⟩
  · rw [hafter] at hread
    obtain ⟨n, hn, hpower⟩ := Option.map_eq_some_iff.mp hread
    obtain ⟨q, hq, hpower⟩ := Option.map_eq_some_iff.mp hpower
    obtain ⟨v, hv, hvalue⟩ := Option.bind_eq_some_iff.mp hq
    obtain ⟨g, hr⟩ : ∃ g, w.graph.read n = (.ok v, g) := ⟨(w.graph.read n).2, Prod.ext (toOption_eq_some.mp hv) rfl⟩
    obtain ⟨-, ⟨units, hunits⟩, hall⟩ := exponents_of_read hafter hn hr fun d _ hmem => List.not_mem_nil hmem
    exact ⟨w, n, v, g, units, rfl, hn, hr, by rw [hvalue, Option.map_some, hpower], hunits, (hall units hunits).1⟩
  · rw [hafter] at hread
    cases hread

end Workspace

end FormulaGraph
