import FormulaGraph.Proofs.Assembling
import FormulaGraph.Proofs.Meaning

/-! Values that are in order: their numbers are finite, the axes of a point are of one dimension, and no
component of a color is out of range. Operations keep it so. -/

namespace FormulaGraph

/-- Neither below zero nor above one. -/
def InRange (x : Float) : Prop := ¬ x < 0 ∧ ¬ 1 < x

def Color.InRange (c : Color) : Prop :=
  FormulaGraph.InRange c.red ∧ FormulaGraph.InRange c.green ∧ FormulaGraph.InRange c.blue ∧
    FormulaGraph.InRange c.alpha

/-- The parts of the value are what they have to be. -/
structure Value.WellFormed (v : Value) : Prop where
  finite : v.NumbersFinite
  axes : ∀ x y, v = .point x y → x.exponent = y.exponent
  components : ∀ c, v = .color c → c.InRange

variable {v : Value} {operation : Operation} {operands : List Value} {x : Float}

theorem inRange_clamp (x : Float) : InRange (clamp x 0 1) := by
  rw [clamp]
  split
  next => exact ⟨by decide, by decide⟩
  next hlow =>
    split
    next => exact ⟨by decide, by decide⟩
    next hhigh => exact ⟨hlow, hhigh⟩

/-- Components stay in range whatever they are made of. -/
theorem mixes_inRange : Mixes (fun _ => True) InRange where
  one := trivial
  ofComponent _ := trivial
  clamped _ := inRange_clamp _
  brighter _ := trivial
  darker _ := trivial

theorem Value.WellFormed.fits (h : v.WellFormed) : v.Fits (fun _ => True) InRange := by
  refine ⟨?_, fun _ _ => trivial⟩
  cases v with
  | point x y => exact h.axes x y rfl
  | color c => exact h.components c rfl
  | scalar | quantity | vector | angle | bool | text => trivial

/-- Operations lead from well-formed values to well-formed ones. -/
theorem wellFormed_of_apply (hoperands : ∀ a ∈ operands, a.WellFormed) (hv : operation.apply operands = .ok v) :
    v.WellFormed := by
  obtain ⟨hmatching, hfinite⟩ := mixes_inRange.apply (fun a ha => (hoperands a ha).fits) hv
  refine ⟨Value.numbersFinite_iff.mpr hfinite, ?_, ?_⟩
  · rintro x y rfl
    exact hmatching
  · rintro c rfl
    exact hmatching

/-- The sum of two points whose axes are in four units. -/
theorem wellFormed_sum_of_points :
    (Operation.binary .add).apply [.point ⟨1, .millimetre, 1⟩ ⟨2, .centimetre, 1⟩,
        .point ⟨2, .inch, 1⟩ ⟨1, .metre, 1⟩] = .ok (.point ⟨51.8, .millimetre, 1⟩ ⟨102, .centimetre, 1⟩) ∧
      (Value.point ⟨51.8, .millimetre, 1⟩ ⟨102, .centimetre, 1⟩).WellFormed := by
  have hsum : (Operation.binary .add).apply [.point ⟨1, .millimetre, 1⟩ ⟨2, .centimetre, 1⟩,
      .point ⟨2, .inch, 1⟩ ⟨1, .metre, 1⟩] = .ok (.point ⟨51.8, .millimetre, 1⟩ ⟨102, .centimetre, 1⟩) :=
    toOption_eq_some.mp (by decide +kernel)
  refine ⟨hsum, wellFormed_of_apply (fun a ha => ?_) hsum⟩
  simp only [List.mem_cons, List.not_mem_nil, or_false] at ha
  obtain rfl | rfl := ha
  · exact ⟨⟨by decide, by decide⟩, by rintro _ _ ⟨⟩; rfl, by rintro _ ⟨⟩⟩
  · exact ⟨⟨by decide, by decide⟩, by rintro _ _ ⟨⟩; rfl, by rintro _ ⟨⟩⟩

end FormulaGraph
