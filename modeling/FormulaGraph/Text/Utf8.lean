/-! Positions in a text are counted in bytes of its UTF-8 form. -/

namespace FormulaGraph

def utf8Length : List Char → Nat
  | [] => 0
  | c :: text => c.utf8Size + utf8Length text

theorem utf8Length_append (a b : List Char) : utf8Length (a ++ b) = utf8Length a + utf8Length b := by
  induction a with
  | nil => simp [utf8Length]
  | cons c a ih => simp [utf8Length, ih, Nat.add_assoc]

/-- What is left of the text after its first `count` bytes. -/
def dropBytes : Nat → List Char → List Char
  | 0, text => text
  | _, [] => []
  | count, c :: text => dropBytes (count - c.utf8Size) text

theorem dropBytes_utf8Length (a b : List Char) : dropBytes (utf8Length a) (a ++ b) = b := by
  induction a with
  | nil => cases b <;> rfl
  | cons c a ih =>
    have h := c.utf8Size_pos
    rw [utf8Length]
    obtain ⟨n, hn⟩ : ∃ n, c.utf8Size + utf8Length a = n + 1 := ⟨c.utf8Size + utf8Length a - 1, by omega⟩
    rw [hn, List.cons_append, dropBytes, ← hn, Nat.add_sub_cancel_left, ih]
    omega

end FormulaGraph
