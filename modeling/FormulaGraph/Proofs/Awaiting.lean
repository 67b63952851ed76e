import FormulaGraph.Proofs.Grammar
import FormulaGraph.Formula.Stacks

/-! What pending operators have read, and the tree they wait for. An operand too many stays too many,
whatever comes after it. -/

namespace FormulaGraph

variable {α : Type}

theorem Spells.mono {k k' : Nat} {e : Expr} {ts : List Token} (h : Spells k e ts) (hk : k' ≤ k) :
    Spells k' e ts := by
  cases h with
  | number digits suffix offset place => exact .number digits suffix offset place
  | text contents offset => exact .text contents offset
  | name name offset => exact .name name offset
  | group opening closing h => exact .group opening closing h
  | call name offset opening closing h => exact .call name offset opening closing h
  | field name dot offset h => exact .field name dot offset h
  | method name dot offset opening closing h hs => exact .method name dot offset opening closing h hs
  | unary op offset hlevel h => exact .unary op offset (Nat.le_trans hk hlevel) h
  | binary op offset hlevel hl hr => exact .binary op offset (Nat.le_trans hk hlevel) hl hr

/-- Arguments that a comma has ended each. -/
inductive SpellsEach : List Expr → List Token → Prop
  | nil : SpellsEach [] []
  | next {es : List Expr} {e : Expr} {ts us : List Token} (comma : Nat) (hs : SpellsEach es us)
    (h : Spells 0 e ts) : SpellsEach (es ++ [e]) (us ++ (ts ++ [⟨comma, .symbol .comma⟩]))

theorem SpellsEach.append {es es' : List Expr} {us us' : List Token} (h : SpellsEach es us)
    (h' : SpellsAll es' us') (hne : es' ≠ []) : SpellsAll (es ++ es') (us ++ us') := by
  induction h generalizing es' us' with
  | nil => exact h'
  | next comma hs hlast ih =>
    cases es' with
    | nil => exact (hne rfl).elim
    | cons e' es' =>
      simpa [List.append_assoc] using ih (.more comma hlast h') (by simp)

theorem SpellsEach.last {es : List Expr} {e : Expr} {us ts : List Token} (h : SpellsEach es us)
    (he : Spells 0 e ts) : SpellsAll (es ++ [e]) (us ++ ts) :=
  h.append (.last he) (by simp)

/-- The tokens so far have left `operators` pending and `n` operands below the one that comes next, which is
a tree of level `k`. -/
inductive Awaits : Operators α → Nat → Nat → List Token → Prop
  | start : Awaits [] 0 0 []
  | binary {operators : Operators α} {n k : Nat} {ts us : List Token} {l : Expr} (op : BinaryOp)
    (offset : Nat) (h : Awaits operators n k ts) (hk : k ≤ op.level) (hl : Spells op.level l us) :
    Awaits ((.binary op, offset) :: operators) (n + 1) (op.level + 1)
      (ts ++ (us ++ [⟨offset, .symbol (.binary op)⟩]))
  | unary {operators : Operators α} {n k : Nat} {ts : List Token} (op : UnaryOp) (offset : Nat)
    (h : Awaits operators n k ts) (hk : k ≤ 7) :
    Awaits ((.unary op, offset) :: operators) n 7 (ts ++ [⟨offset, .symbol op.mark⟩])
  | paren {operators : Operators α} {n k : Nat} {ts : List Token} (offset : Nat)
    (h : Awaits operators n k ts) :
    Awaits ((.paren, offset) :: operators) n 0 (ts ++ [⟨offset, .symbol .opening⟩])
  | builtin {operators : Operators α} {n k : Nat} {ts us : List Token} {es : List Expr} {f : Builtin}
    (name : String) (offset opening : Nat) (h : Awaits operators n k ts) (hs : SpellsEach es us) :
    Awaits ((.call (.builtin f) n es.length, offset) :: operators) (n + es.length) 0
      (ts ++ (⟨offset, .name name⟩ :: ⟨opening, .symbol .opening⟩ :: us))
  | method {operators : Operators α} {n k : Nat} {ts us vs : List Token} {e : Expr} {es : List Expr}
    {f : Method} {a : α} (name : String) (dot offset opening : Nat) (h : Awaits operators n k ts)
    (he : Spells 8 e us) (hs : SpellsEach es vs) :
    Awaits ((.call (.method f a) n es.length, offset) :: operators) (n + es.length) 0
      (ts ++ (us ++ ⟨dot, .symbol .dot⟩ :: ⟨offset, .name name⟩ :: ⟨opening, .symbol .opening⟩ :: vs))

/-- With `n` operands and one more to come, there is one that nothing is going to take. -/
def Over : Operators α → Nat → Prop
  | [], n => 0 < n
  | (.binary _, _) :: operators, n => 0 < n ∧ Over operators (n - 1)
  | (.unary _, _) :: operators, n | (.paren, _) :: operators, n => Over operators n
  | (.call _ base closed, _) :: operators, n =>
    base + closed < n ∨ n = base + closed ∧ Over operators base

section

variable {operators : Operators α} {n k : Nat} {ts : List Token}

theorem Over.more (h : Over operators n) : Over operators (n + 1) := by
  induction operators generalizing n with
  | nil => exact Nat.lt_succ_of_lt h
  | cons entry operators ih =>
    obtain ⟨pending, place⟩ := entry
    cases pending with
    | binary op =>
      obtain ⟨hn, h⟩ := h
      have hmore := ih h
      rw [Nat.sub_add_cancel hn] at hmore
      exact ⟨Nat.succ_pos n, hmore⟩
    | unary op => exact ih (n := n) h
    | paren => exact ih (n := n) h
    | call callee base closed =>
      rcases h with h | ⟨rfl, h⟩
      · exact .inl (Nat.lt_succ_of_lt h)
      · exact .inl (Nat.lt_succ_self _)

/-- An operand where none is waited for is one too many. -/
theorem Awaits.over (h : Awaits operators n k ts) : Over operators (n + 1) := by
  induction h with
  | start => exact Nat.one_pos
  | binary op offset h hk hl ih => exact ⟨Nat.succ_pos _, ih⟩
  | unary op offset h hk ih => exact ih
  | paren offset h ih => exact ih
  | builtin name offset opening h hs ih => exact .inl (Nat.lt_succ_self _)
  | method name dot offset opening h he hs ih => exact .inl (Nat.lt_succ_self _)

/-- An operator that nothing pending yields to may come next. -/
theorem Awaits.level_le {t : Nat} (h : Awaits operators n k ts) (ht : t < 7)
    (hyield : ∀ p ∈ operators.head?, p.1.level < t) : k ≤ t := by
  cases h with
  | start => exact Nat.zero_le t
  | binary op offset h hk hl => exact hyield (.binary op, offset) rfl
  | unary op offset h hk =>
    have hlt : 7 < t := hyield (.unary op, offset) rfl
    omega
  | paren offset h => exact Nat.zero_le t
  | builtin name offset opening h hs => exact Nat.zero_le t
  | method name dot offset opening h he hs => exact Nat.zero_le t

end

end FormulaGraph
