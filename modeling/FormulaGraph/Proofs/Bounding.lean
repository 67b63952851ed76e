import FormulaGraph.Proofs.Assembling
import FormulaGraph.Proofs.Formatting
import FormulaGraph.Proofs.Lexing
import FormulaGraph.Proofs.Valuing

/-! What values of formulas are made of. Calculations come to finite numbers, the axes of a point are of one
dimension, and the components of a color stay in range. -/

namespace FormulaGraph

variable {v : Value} {c : Color} {q : Quantity} {x y : Float}

/-- Between zero and one. -/
structure Fraction (x : Float) : Prop where
  isFinite : x.isFinite = true
  nonneg : 0 ≤ rational x
  le_one : rational x ≤ 1

structure Color.Bounded (c : Color) : Prop where
  red : Fraction c.red
  green : Fraction c.green
  blue : Fraction c.blue
  alpha : Fraction c.alpha

/-- The parts of the value go together. -/
def Value.Formed : Value → Prop
  | .point x y => x.exponent = y.exponent
  | .color c => c.Bounded
  | _ => True

/-- The numbers are finite. Only a scalar may be infinite, when it is a literal. -/
inductive Value.Sound : Value → Prop
  | scalar {x : Float} (h : x.isNaN = false) : Sound (.scalar x)
  | quantity {q : Quantity} (h : q.magnitude.isFinite = true) : Sound (.quantity q)
  | point {x y : Quantity} (hx : x.magnitude.isFinite = true) (hy : y.magnitude.isFinite = true)
    (h : x.exponent = y.exponent) : Sound (.point x y)
  | vector {v : Planar} (hx : v.x.isFinite = true) (hy : v.y.isFinite = true) : Sound (.vector v)
  | angle {radians : Float} (h : radians.isFinite = true) : Sound (.angle radians)
  | color {c : Color} (h : c.Bounded) : Sound (.color c)
  | bool (b : Bool) : Sound (.bool b)
  | text (s : String) : Sound (.text s)

theorem Value.Sound.formed (h : v.Sound) : v.Formed := by
  cases h with
  | point _ _ h => exact h
  | color h => exact h
  | scalar | quantity | vector | angle | bool | text => trivial

theorem Value.Formed.sound (h : v.Formed) (hfinite : ∀ x ∈ v.numbers, x.isFinite = true) : v.Sound := by
  cases v with
  | scalar x => exact .scalar (isNaN_of_isFinite (hfinite x (by simp [numbers])))
  | quantity q => exact .quantity (hfinite _ (by simp [numbers]))
  | point x y => exact .point (hfinite _ (by simp [numbers])) (hfinite _ (by simp [numbers])) h
  | vector v => exact .vector (hfinite _ (by simp [numbers])) (hfinite _ (by simp [numbers]))
  | angle r => exact .angle (hfinite _ (by simp [numbers]))
  | color c => exact .color h
  | bool b => exact .bool b
  | text s => exact .text s

/-! Colors. -/

theorem fraction_clamp (hx : x.isNaN = false) : Fraction (clamp x 0 1) := by
  obtain ⟨hfinite, hlow, hhigh⟩ := clamp_bounds hx
  exact ⟨hfinite, hlow, hhigh⟩

theorem Color.bounded_clamped {r g b a : Float} (hr : r.isNaN = false) (hg : g.isNaN = false)
    (hb : b.isNaN = false) (ha : a.isNaN = false) : (clamped r g b a).Bounded :=
  ⟨fraction_clamp hr, fraction_clamp hg, fraction_clamp hb, fraction_clamp ha⟩

theorem rational_shade : Color.shade.isFinite = true ∧ 0 < rational Color.shade := by
  have hfinite : Color.shade.isFinite = true := rfl
  have hpos : 0 < Color.shade := by decide
  exact ⟨hfinite, rational_zero.2 ▸ (lt_iff rational_zero.1 hfinite).mp hpos⟩

theorem mixes_fraction : Mixes (fun x => x.isNaN = false) Fraction where
  one := isNaN_of_isFinite rational_one.1
  ofComponent h := isNaN_of_isFinite h.isFinite
  clamped := fraction_clamp
  brighter h :=
    have ⟨hshade, hpos⟩ := rational_shade
    (rounds_div h.isFinite hshade hpos.ne').isNumber
  darker h := (rounds_mul h.isFinite rational_shade.1).isNumber

/-! Operations. -/

/-- The result is formed, if there is one. -/
def Forms (x : Applied) : Prop := ∀ v, x = .ok v → v.Formed

theorem Value.Sound.scalarOr (h : v.Sound) (hx : v.scalarOr = .ok x) : x.isNaN = false := by
  rw [Value.scalarOr] at hx
  cases h with
  | scalar h =>
    cases hx
    exact h
  | @quantity q h =>
    rw [asScalar?] at hx
    cases hr : q.isRatio <;> rw [hr] at hx <;> cases hx
    exact isNaN_of_isFinite h
  | point | vector | angle | color | bool | text => cases hx

theorem Value.matching_iff : v.Matching Fraction ↔ v.Formed := by
  cases v with
  | color c => exact ⟨fun ⟨hr, hg, hb, ha⟩ => ⟨hr, hg, hb, ha⟩, fun ⟨hr, hg, hb, ha⟩ => ⟨hr, hg, hb, ha⟩⟩
  | scalar | quantity | point | vector | angle | bool | text => rfl

theorem Value.Sound.fits (h : v.Sound) : v.Fits (fun x => x.isNaN = false) Fraction :=
  ⟨matching_iff.mpr h.formed, fun _ => h.scalarOr⟩

theorem forms_perform {operands : List Value} (operation : Operation) (h : ∀ a ∈ operands, a.Sound) :
    Forms (operation.perform operands) := fun v hv =>
  Value.matching_iff.mp (mixes_fraction.perform operation (fun a ha => (h a ha).fits) v hv)

/-- Calculations lead from sound values to sound ones. -/
theorem Operation.sound {operation : Operation} {operands : List Value} (h : ∀ a ∈ operands, a.Sound)
    (hv : operation.value? operands = some v) : v.Sound := by
  rw [value?, toOption_eq_some] at hv
  obtain ⟨hperform, hfinite⟩ := perform_of_apply hv
  exact (forms_perform operation h v hperform).sound hfinite

/-! Trees. -/

/-- All that the tree can come to is a sound value. -/
def Expr.Sound (e : Expr) : Prop :=
  ∀ found, e.meaning noResults () = some found → ∃ v, found = .value v ∧ v.Sound

def Expr.AllSound (es : List Expr) : Prop :=
  ∀ values, Expr.meanings noResults () es = some values → ∀ v ∈ values, v.Sound

theorem Numeral.isNumber {l : List Char} (h : Numeral l) (hx : FormulaGraph.readNumber? l = some x) :
    x.isNaN = false := by
  rw [h.readNumber?] at hx
  obtain ⟨d, -, rfl⟩ := Option.map_eq_some_iff.mp hx
  exact d.rounds_toFloat.isNumber

namespace Expr

variable {e l r : Expr} {es : List Expr} {found : Found Value Unit}

theorem sound_result {operation : Operation} {operands : List Value} (h : ∀ a ∈ operands, a.Sound)
    (hfound : ((operation.value? operands).bind fun w => some (.value w)) = some found) :
    ∃ v, found = .value v ∧ v.Sound := by
  obtain ⟨v, hv, hfound⟩ := Option.bind_eq_some_iff.mp hfound
  exact ⟨v, (Option.some.inj hfound).symm, operation.sound h hv⟩

theorem sound_number {digits : String} (h : Numeral digits.toList) (suffix : Option Suffix) (offset : Nat) :
    (number digits suffix offset).Sound := by
  intro found hfound
  rw [meaning] at hfound
  obtain ⟨x, hx, hfound⟩ := Option.bind_eq_some_iff.mp hfound
  have hsound : (Value.scalar x).Sound := .scalar (h.isNumber hx)
  cases suffix with
  | none => exact ⟨_, (Option.some.inj hfound).symm, hsound⟩
  | some suffix => exact sound_result (by simpa using hsound) hfound

theorem sound_name (word : String) (offset : Nat) : (name word offset).Sound := by
  intro found hfound
  rw [meaning] at hfound
  split at hfound
  · exact ⟨_, (Option.some.inj hfound).symm, .bool true⟩
  split at hfound
  · exact ⟨_, (Option.some.inj hfound).symm, .bool false⟩
  obtain ⟨v, hv, rfl⟩ := Option.map_eq_some_iff.mp hfound
  refine ⟨v, rfl, ?_⟩
  have hzero : Fraction 0 := ⟨rational_zero.1, rational_zero.2.ge, rational_zero.2.trans_le zero_le_one⟩
  have hone : Fraction 1 := ⟨rational_one.1, zero_le_one.trans rational_one.2.ge, rational_one.2.le⟩
  have hzero' := isNaN_of_isFinite hzero.isFinite
  have hone' := isNaN_of_isFinite hone.isFinite
  rw [namedConstant?] at hv
  split at hv
  · exact Option.some.inj hv ▸ .scalar rfl
  split at hv
  · exact Option.some.inj hv ▸ .color ⟨hzero, hzero, hzero, hone⟩
  split at hv
  · exact Option.some.inj hv ▸ .color (Color.bounded_clamped hone' hone' hone' hone')
  split at hv
  · exact Option.some.inj hv ▸ .color (Color.bounded_clamped hzero' hzero' hzero' hzero')
  · cases hv

theorem Sound.bind {β : Type} {f : Value → Option β} {b : β} (h : e.Sound)
    (hb : ((e.meaning noResults ()).bind fun found => found.value?.bind f) = some b) :
    ∃ v, v.Sound ∧ f v = some b := by
  obtain ⟨found, hfound, hb⟩ := Option.bind_eq_some_iff.mp hb
  obtain ⟨v, rfl, hv⟩ := h found hfound
  exact ⟨v, hv, hb⟩

theorem AllSound.call (h : AllSound es) (word : String) (offset : Nat) : (call word es offset).Sound := by
  intro found hfound
  rw [meaning] at hfound
  obtain ⟨f, -, hfound⟩ := Option.bind_eq_some_iff.mp hfound
  obtain ⟨values, hvalues, hfound⟩ := Option.bind_eq_some_iff.mp hfound
  exact sound_result (h values hvalues) hfound

theorem Sound.field (h : e.Sound) (word : String) (offset : Nat) : (field e word offset).Sound := by
  intro found hfound
  rw [meaning] at hfound
  obtain ⟨receiver, hreceiver, hfound⟩ := Option.bind_eq_some_iff.mp hfound
  obtain ⟨v, rfl, hv⟩ := h receiver hreceiver
  obtain ⟨f, -, hfound⟩ := Option.bind_eq_some_iff.mp hfound
  exact sound_result (by simpa using hv) hfound

theorem Sound.method (h : e.Sound) (hs : AllSound es) (word : String) (offset : Nat) :
    (method e word es offset).Sound := by
  intro found hfound
  rw [meaning] at hfound
  obtain ⟨v, hv, hfound⟩ := h.bind hfound
  obtain ⟨m, -, hfound⟩ := Option.bind_eq_some_iff.mp hfound
  obtain ⟨values, hvalues, hfound⟩ := Option.bind_eq_some_iff.mp hfound
  exact sound_result (List.forall_mem_cons.mpr ⟨hv, hs values hvalues⟩) hfound

theorem Sound.unary (h : e.Sound) (op : UnaryOp) (offset : Nat) : (unary op e offset).Sound := by
  intro found hfound
  rw [meaning] at hfound
  obtain ⟨v, hv, hfound⟩ := h.bind hfound
  exact sound_result (by simpa using hv) hfound

theorem Sound.binary (hl : l.Sound) (hr : r.Sound) (op : BinaryOp) (offset : Nat) :
    (binary op l r offset).Sound := by
  intro found hfound
  rw [meaning] at hfound
  obtain ⟨v, hv, hfound⟩ := hl.bind hfound
  obtain ⟨w, hw, hfound⟩ := hr.bind hfound
  exact sound_result (by simpa using ⟨hv, hw⟩) hfound

theorem Sound.cons (h : e.Sound) (hs : AllSound es) : AllSound (e :: es) := by
  intro values hvalues
  rw [meanings] at hvalues
  obtain ⟨v, hv, hvalues⟩ := h.bind hvalues
  obtain ⟨rest, hrest, hvalues⟩ := Option.bind_eq_some_iff.mp hvalues
  obtain rfl := Option.some.inj hvalues
  exact List.forall_mem_cons.mpr ⟨hv, hs rest hrest⟩

end Expr

/-- Numbers among the tokens are numerals. -/
def NumbersSpelled (ts : List Token) : Prop :=
  ∀ t ∈ ts, ∀ digits, t.lexeme = .number digits → Numeral digits.toList

namespace NumbersSpelled

variable {t : Token} {ts us : List Token}

theorem head (h : NumbersSpelled (t :: ts)) : ∀ digits, t.lexeme = .number digits → Numeral digits.toList :=
  h t List.mem_cons_self

theorem tail (h : NumbersSpelled (t :: ts)) : NumbersSpelled ts :=
  fun t ht => h t (List.mem_cons_of_mem _ ht)

theorem left (h : NumbersSpelled (ts ++ us)) : NumbersSpelled ts := fun t ht => h t (List.mem_append_left _ ht)

theorem right (h : NumbersSpelled (ts ++ us)) : NumbersSpelled us := fun t ht => h t (List.mem_append_right _ ht)

end NumbersSpelled

mutual

theorem Spells.sound {k : Nat} {e : Expr} {ts : List Token} : Spells k e ts → NumbersSpelled ts → e.Sound
  | .number digits suffix offset _, hts => Expr.sound_number (hts.head digits rfl) suffix offset
  | .text contents offset, _ => fun _ hfound => ⟨_, (Option.some.inj hfound).symm, .text contents⟩
  | .name name offset, _ => Expr.sound_name name offset
  | .group _ _ h, hts => h.sound hts.tail.left
  | .call name offset _ _ h, hts => (h.sound hts.tail.tail.left).call name offset
  | .field name _ offset h, hts => (h.sound hts.left).field name offset
  | .method name _ offset _ _ h hs, hts =>
    (h.sound hts.left).method (hs.sound hts.right.tail.tail.tail.left) name offset
  | .unary op offset _ h, hts => (h.sound hts.tail).unary op offset
  | .binary op offset _ hl hr, hts => (hl.sound hts.left).binary (hr.sound hts.right.tail) op offset

theorem SpellsAll.sound {es : List Expr} {ts : List Token} : SpellsAll es ts → NumbersSpelled ts → Expr.AllSound es
  | .nil, _ => fun _ hvalues => Option.some.inj hvalues ▸ List.forall_mem_nil _
  | .last h, hts => (h.sound hts).cons fun _ hvalues => Option.some.inj hvalues ▸ List.forall_mem_nil _
  | .more _ h hs, hts => (h.sound hts.left).cons (hs.sound hts.right.tail)

end

theorem numbersSpelled_of_tokenize {formula : String} {ts : List Token} (h : tokenize formula = .ok ts) :
    NumbersSpelled ts := by
  obtain ⟨last, rest, hcuts, -⟩ := tokenize_ok_iff.mp h
  intro t ht digits hdigits
  obtain ⟨before, l, after, -, -, hl⟩ := hcuts.lexeme_at t ht
  have hspelled := hl.spelled
  rw [hdigits] at hspelled
  cases hspelled with
  | number hl =>
    rw [String.toList_ofList]
    exact hl

/-- What a formula comes to is sound. -/
theorem sound_of_evaluate {formula : String} (h : evaluate formula = .ok v) : v.Sound := by
  obtain ⟨ts, e, hts, hspells, hmeaning⟩ := evaluate_iff.mp h
  obtain ⟨w, hw, hsound⟩ := hspells.sound (numbersSpelled_of_tokenize hts) _ hmeaning
  cases hw
  exact hsound

end FormulaGraph
