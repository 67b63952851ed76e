import FormulaGraph.Operation.Apply
import FormulaGraph.Proofs.Doubles

/-! What operations make of the parts of their operands. The axes of a point keep to one dimension, and the
components of a color to any test that clamping makes them pass. -/

namespace FormulaGraph

deriving instance DecidableEq for Planar, Quantity, Color, Value

variable {number component : Float → Prop} {v a b : Value} {q : Quantity} {c : Color} {x y : Float}

/-- A test for the components of colors and one for the numbers that components are made of. -/
structure Mixes (number component : Float → Prop) : Prop where
  one : number 1
  ofComponent {x : Float} : component x → number x
  clamped {x : Float} : number x → component (clamp x 0 1)
  brighter {x : Float} : component x → number (x / Color.shade)
  darker {x : Float} : component x → number (x * Color.shade)

def Color.Each (component : Float → Prop) (c : Color) : Prop :=
  component c.red ∧ component c.green ∧ component c.blue ∧ component c.alpha

/-- The parts of the value go together. -/
def Value.Matching (component : Float → Prop) : Value → Prop
  | .point x y => x.exponent = y.exponent
  | .color c => c.Each component
  | _ => True

/-- An operand whose parts go together, with a number that passes where it counts as a scalar. -/
structure Value.Fits (number component : Float → Prop) (v : Value) : Prop where
  matching : v.Matching component
  number : ∀ x, v.scalarOr = .ok x → number x

theorem numericFault?_eq_none : numericFault? x = none ↔ x.isFinite = true := by
  rw [isFinite_iff, numericFault?]
  cases x.isNaN <;> cases x.isInf <;> simp

/-- What passes the check has finite numbers. -/
theorem checkFinite_iff {w : Value} : checkFinite v = .ok w ↔ v = w ∧ ∀ x ∈ v.numbers, x.isFinite = true := by
  rw [checkFinite]
  constructor
  · intro h
    split at h
    · cases h
    next hnone =>
      exact ⟨Except.ok.inj h, fun x hx => numericFault?_eq_none.mp (List.findSome?_eq_none_iff.mp hnone x hx)⟩
  · rintro ⟨rfl, h⟩
    rw [List.findSome?_eq_none_iff.mpr fun x hx => numericFault?_eq_none.mpr (h x hx)]

/-- The numbers of the value pass the check. The components of a color are not among them. -/
def Value.NumbersFinite : Value → Prop
  | .scalar x => numericFault? x = none
  | .quantity q => numericFault? q.magnitude = none
  | .point x y => numericFault? x.magnitude = none ∧ numericFault? y.magnitude = none
  | .vector v => numericFault? v.x = none ∧ numericFault? v.y = none
  | .angle radians => numericFault? radians = none
  | .color _ | .bool _ | .text _ => True

/-- A result is what has been worked out, and its numbers are finite. -/
theorem Operation.perform_of_apply {operation : Operation} {operands : List Value}
    (hv : operation.apply operands = .ok v) :
    operation.perform operands = .ok v ∧ ∀ x ∈ v.numbers, x.isFinite = true := by
  rw [apply] at hv
  cases hw : operation.perform operands with
  | error fault =>
    rw [hw] at hv
    cases hv
  | ok w =>
    rw [hw] at hv
    obtain ⟨rfl, hfinite⟩ := checkFinite_iff.mp hv
    exact ⟨rfl, hfinite⟩

theorem Value.numbersFinite_iff : v.NumbersFinite ↔ ∀ x ∈ v.numbers, x.isFinite = true := by
  simp only [← numericFault?_eq_none]
  cases v <;> simp [NumbersFinite, numbers]

/-! Colors. -/

namespace Mixes

variable (hmixes : Mixes number component)
include hmixes

theorem each_clamped {r g b a : Float} (hr : number r) (hg : number g) (hb : number b) (ha : number a) :
    (Color.clamped r g b a).Each component :=
  ⟨hmixes.clamped hr, hmixes.clamped hg, hmixes.clamped hb, hmixes.clamped ha⟩

theorem brighter_color (h : (Value.color c).Matching component) : (Value.color c.brighter).Matching component := by
  obtain ⟨hr, hg, hb, ha⟩ := h
  exact hmixes.each_clamped (hmixes.brighter hr) (hmixes.brighter hg) (hmixes.brighter hb) (hmixes.ofComponent ha)

theorem darker_color (h : (Value.color c).Matching component) : (Value.color c.darker).Matching component := by
  obtain ⟨hr, hg, hb, ha⟩ := h
  exact hmixes.each_clamped (hmixes.darker hr) (hmixes.darker hg) (hmixes.darker hb) (hmixes.ofComponent ha)

theorem withAlpha_color (h : (Value.color c).Matching component) (hx : number x) :
    (Value.color (c.withAlpha x)).Matching component := by
  obtain ⟨hr, hg, hb, -⟩ := h
  exact hmixes.each_clamped (hmixes.ofComponent hr) (hmixes.ofComponent hg) (hmixes.ofComponent hb) hx

end Mixes

/-! Results. -/

/-- The parts of the result go together, if there is one. -/
def Matches (component : Float → Prop) (x : Applied) : Prop := ∀ v, x = .ok v → v.Matching component

namespace Matches

theorem ok (h : v.Matching component) : Matches component (.ok v) := fun _ he => Except.ok.inj he ▸ h

theorem error (fault : ValueFault) : Matches component (.error fault) := fun _ he => by cases he

theorem bind {α : Type} {x : Except ValueFault α} {f : α → Applied}
    (h : ∀ a, x = .ok a → Matches component (f a)) : Matches component (x >>= f) := by
  cases hx : x with
  | error fault => exact .error fault
  | ok a => exact h a hx

theorem ite {b : Bool} {x y : Applied} (hx : Matches component x) (hy : Matches component y) :
    Matches component (if b = true then x else y) := by
  cases b
  · exact hy
  · exact hx

end Matches

/-! Operators. -/

theorem exponent_joinQuantities {op : BinaryOp} {a b : Quantity} (h : joinQuantities op a b = .ok q) :
    q.exponent = a.exponent := by
  have hadd : ∀ b, a.add? b = some q → q.exponent = a.exponent := fun b h => by
    rw [Quantity.add?] at h
    split at h
    · cases h
      rfl
    · cases h
  rw [joinQuantities] at h
  split at h
  next hq =>
    cases h
    split at hq
    · exact hadd _ hq
    · exact hadd _ hq
  next => cases h

theorem matches_joinQuantities {x y x' y' : Quantity} (op : BinaryOp) (h : x.exponent = y.exponent) :
    Matches component (do return .point (← joinQuantities op x x') (← joinQuantities op y y')) :=
  .bind fun _ hx => .bind fun _ hy => .ok <|
    (exponent_joinQuantities hx).trans (h.trans (exponent_joinQuantities hy).symm)

theorem matches_arithmetic (op : BinaryOp) (ha : a.Matching component) (hb : b.Matching component) :
    Matches component (arithmetic op a b) := by
  rw [arithmetic.eq_def]
  -- Only sums, differences and multiples of points have parts that have to go together.
  split
  all_goals first
    | exact .error _
    | exact .ok trivial
    | exact .bind fun _ _ => .ok trivial
    | exact .ite (.ok trivial) (.error _)
    | exact matches_joinQuantities _ ha
    | exact .ok ha
    | exact .ok hb
    | exact .bind fun _ _ => .ok ha
    | exact .ok rfl
    | skip
  split
  · exact .ok trivial
  · exact .error _

theorem matches_combine (op : BinaryOp) (ha : a.Matching component) (hb : b.Matching component) :
    Matches component (combine op a b) := by
  have hcompare : ∀ op test, Matches component (compareWith op test a b) := fun op test => by
    rw [compareWith]
    split
    · exact .ok trivial
    · exact .error _
  cases op with
  | add | sub | mul | div => exact matches_arithmetic _ ha hb
  | eq | ne => exact .bind fun _ _ => .ok trivial
  | lt | gt | le | ge => exact hcompare _ _
  | and | or =>
    rw [combine.eq_def]
    dsimp only
    split
    · exact .ok trivial
    · exact .error _

theorem matches_binary (op : BinaryOp) (ha : a.Matching component) (hb : b.Matching component) :
    Matches component (op.apply a b) :=
  .bind fun w hw _ hv => (checkFinite_iff.mp hv).1 ▸ matches_combine op ha hb w hw

theorem matches_unary (op : UnaryOp) (ha : a.Matching component) : Matches component (op.apply a) := by
  rw [UnaryOp.apply.eq_def]
  split
  all_goals first
    | exact .error _
    | exact .ok trivial
    | exact .ok ha

/-! Members, functions and units. -/

theorem matches_field (f : Field) (a : Value) : Matches component (f.read a) := by
  rw [Field.read.eq_def]
  split
  all_goals first
    | exact .error _
    | exact .ok trivial

theorem matches_normalised (p : Planar) : Matches component (normalised p) := by
  rw [normalised]
  split
  · exact .ok trivial
  · exact .error _

theorem matches_distanceBetween (x y x' y' : Quantity) : Matches component (distanceBetween x y x' y') :=
  .ite (.ok trivial) (.error _)

theorem matches_pointOf (x y : Quantity) :
    Matches component (if x.sameDimension y then .ok (.point x y) else .error .axisDimensions) := by
  split
  next h => exact .ok (beq_iff_eq.mp h)
  next => exact .error _

theorem matches_chosen (condition : Bool) (ha : a.Matching component) (hb : b.Matching component) :
    Matches component (.ok (if condition then a else b)) := by
  cases condition
  · exact .ok hb
  · exact .ok ha

theorem matches_attach (suffix : Suffix) (a : Value) : Matches component (suffix.attach a) := by
  rw [Suffix.attach.eq_def]
  split
  · split <;> exact .ok trivial
  · exact .error _

namespace Mixes

variable (hmixes : Mixes number component)
include hmixes

theorem method {arguments : List Value} (m : Method) (ha : a.Matching component)
    (harguments : ∀ b ∈ arguments, b.Fits number component) : Matches component (m.call a arguments) := by
  rw [Method.call.eq_def]
  split
  · split
    all_goals first
      | exact .error _
      | exact .ok trivial
      | exact .bind fun _ _ => .ok trivial
      | exact .bind fun _ _ => .ok rfl
      | exact matches_normalised _
      | with_reducible exact .ok (hmixes.brighter_color ha)
      | with_reducible exact .ok (hmixes.darker_color ha)
      | exact .bind fun _ hx => .ok (hmixes.withAlpha_color ha ((harguments _ (by simp)).number _ hx))
      | skip
    all_goals split
    all_goals first
      | exact .error _
      | exact .ok trivial
      | exact matches_distanceBetween _ _ _ _
  · exact .error _

theorem builtin {arguments : List Value} (f : Builtin) (harguments : ∀ b ∈ arguments, b.Fits number component) :
    Matches component (f.call arguments) := by
  have hnumber : ∀ {a x}, a.scalarOr = .ok x → a ∈ arguments → number x := fun hx ha =>
    (harguments _ ha).number _ hx
  rw [Builtin.call.eq_def]
  split
  · split
    all_goals first
      | exact .error _
      | exact .ok trivial
      | exact .bind fun _ _ => .bind fun _ _ => .ok trivial
      | exact .ite (.error _) (.ok trivial)
      | exact matches_pointOf _ _
      | exact .bind fun _ hr => .bind fun _ hg => .bind fun _ hb => .ok <|
          hmixes.each_clamped (hnumber hr (by simp)) (hnumber hg (by simp)) (hnumber hb (by simp)) hmixes.one
      | exact .bind fun _ hr => .bind fun _ hg => .bind fun _ hb => .bind fun _ ha => .ok <|
          hmixes.each_clamped (hnumber hr (by simp)) (hnumber hg (by simp)) (hnumber hb (by simp))
            (hnumber ha (by simp))
      | exact .bind fun _ _ =>
          matches_chosen _ (harguments _ (by simp)).matching (harguments _ (by simp)).matching
      | exact .ok (harguments _ (by simp)).matching
      | skip
    split
    · exact .ok trivial
    · exact .error _
  · exact .error _

theorem perform {operands : List Value} (operation : Operation)
    (h : ∀ a ∈ operands, a.Fits number component) : Matches component (operation.perform operands) := by
  rw [Operation.perform.eq_def]
  split
  · exact matches_binary _ (h _ (by simp)).matching (h _ (by simp)).matching
  · exact matches_unary _ (h _ (by simp)).matching
  · exact matches_field _ _
  · exact hmixes.method _ (h _ (by simp)).matching fun b hb => h b (List.mem_cons_of_mem _ hb)
  · exact hmixes.builtin _ h
  · exact matches_attach _ _
  · exact .error _

/-- The parts of a result go together, and its numbers are finite. -/
theorem apply {operands : List Value} {operation : Operation} (h : ∀ a ∈ operands, a.Fits number component)
    (hv : operation.apply operands = .ok v) :
    v.Matching component ∧ ∀ x ∈ v.numbers, x.isFinite = true := by
  obtain ⟨hperform, hfinite⟩ := operation.perform_of_apply hv
  exact ⟨hmixes.perform operation h v hperform, hfinite⟩

end Mixes

end FormulaGraph
