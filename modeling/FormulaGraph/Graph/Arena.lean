/-! Numbered slots for listeners. A slot that has been freed is taken again before a new one is made, the
last freed first, under a new generation, so that an old number does not reach its new listener. -/

namespace FormulaGraph

structure Slot (α : Type) where
  generation : UInt32
  listener : Option α
deriving Repr

structure Arena (α : Type) where
  slots : Array (Slot α) := #[]
  free : List Nat := []
deriving Repr

namespace Arena

variable {α : Type}

/-- The slot taken and its generation. -/
def insert (a : Arena α) (listener : α) : (Nat × UInt32) × Arena α :=
  match a.free with
  | index :: free =>
    let generation := (a.slots[index]?.map Slot.generation).getD 0
    ((index, generation), ⟨a.slots.setIfInBounds index ⟨generation, some listener⟩, free⟩)
  | [] => ((a.slots.size, 0), { a with slots := a.slots.push ⟨0, some listener⟩ })

/-- Frees a slot that is still taken under this generation. -/
def remove (a : Arena α) (index : Nat) (generation : UInt32) : Arena α :=
  match a.slots[index]? with
  | some ⟨current, some _⟩ =>
    if current = generation then
      ⟨a.slots.setIfInBounds index ⟨generation + 1, none⟩, index :: a.free⟩
    else a
  | _ => a

/-- In the order of their slots. -/
def listeners (a : Arena α) : List α := a.slots.toList.filterMap (·.listener)

end Arena

end FormulaGraph
