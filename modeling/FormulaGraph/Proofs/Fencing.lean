import FormulaGraph.Formula.Evaluate
import FormulaGraph.Proofs.Accepting
import FormulaGraph.Proofs.Precedence

/-! Brackets fence operands off. An operator takes only operands that were pushed after the innermost open bracket,
and an open call still has the operands that were there when it was opened and its arguments so far. The same
reader with an alarm wherever that could fail reads the same. -/

namespace FormulaGraph

variable {m : Type → Type} [Monad m] {α σ β γ : Type}

namespace Pending

variable {α : Type}

/-- How many operands an operator takes. -/
def arity : Pending α → Nat
  | binary _ => 2
  | unary _ => 1
  | paren | call .. => 0

/-- The operands that an open call cannot do without. -/
def claims : Pending α → Nat
  | call _ base closed => base + closed
  | _ => 0

end Pending

/-- Every open call has its operands among the first `n`. -/
def Stocked (operators : Operators α) (n : Nat) : Prop := ∀ entry ∈ operators, entry.1.claims ≤ n

instance (operators : Operators α) (n : Nat) : Decidable (Stocked operators n) :=
  inferInstanceAs (Decidable (∀ entry ∈ operators, entry.1.claims ≤ n))

instance (n : Nat) (operators : Operators α) : Decidable (Fits n operators) :=
  match operators with
  | [] => inferInstanceAs (Decidable (n = 0))
  | (.call _ base closed, _) :: _ => inferInstanceAs (Decidable (n = base + closed))
  | (.paren, _) :: _ | (.binary _, _) :: _ | (.unary _, _) :: _ => inferInstanceAs (Decidable True)

def openBrackets (operators : Operators α) : Nat := operators.countP (·.1.isBracket)

/-- How many operands there were when each of the open brackets was opened, the innermost first. -/
abbrev Fences := List Nat

/-- The operands that an operator must leave alone. -/
def Fences.innermost (fences : Fences) : Nat := fences.headD 0

/-- The fences after a step. A bracket that was opened has all operands outside. -/
def Fences.step (fences : Fences) (s s' : Stacks α σ) : Fences :=
  if openBrackets s.operators < openBrackets s'.operators then s'.operands.length :: fences
  else fences.drop (openBrackets s.operators - openBrackets s'.operators)

/-- Goes on if all is as it should be. -/
def insist (alarm : Failure α) (p : Prop) [Decidable p] (x : Parsing m α β) : Parsing m α β :=
  if p then x else throw alarm

/-- Applies operators with `alarm` if one of them is a bracket or would take an operand from outside. -/
def Builder.reduceWhileOr (alarm : Failure α) (b : Builder m α σ) (fences : Fences) (test : Pending α → Bool)
    (operands : Operands α σ) : Operators α → Parsing m α (Operands α σ × Operators α)
  | [] => return (operands, [])
  | (pending, offset) :: operators =>
    insist alarm (Stocked ((pending, offset) :: operators) operands.length) <|
      if test pending then
        insist alarm (pending.isBracket = false ∧ fences.innermost + pending.arity ≤ operands.length) do
          b.reduceWhileOr alarm fences test (← b.reduce pending offset operands operators) operators
      else return (operands, (pending, offset) :: operators)

def Builder.closeBracketOr (alarm : Failure α) (b : Builder m α σ) (fences : Fences) (empty : Bool) (offset : Nat)
    (operands : Operands α σ) : Operators α → Parsing m α (Operands α σ × Operators α)
  | [] => b.closeBracket empty offset operands []
  | (.paren, place) :: operators => b.closeBracket empty offset operands ((.paren, place) :: operators)
  | (.call callee base closed, place) :: operators =>
    insist alarm (base + closed + (if empty then 0 else 1) ≤ operands.length) <|
      b.closeBracket empty offset operands ((.call callee base closed, place) :: operators)
  | (pending, place) :: operators =>
    insist alarm (Stocked ((pending, place) :: operators) operands.length ∧
        fences.innermost + pending.arity ≤ operands.length) do
      b.closeBracketOr alarm fences empty offset (← b.reduce pending place operands operators) operators

theorem closeBracketOr_step (alarm : Failure α) (b : Builder m α σ) {pending : Pending α}
    (hp : pending.isBracket = false) (fences : Fences) (empty : Bool) (offset place : Nat)
    (operands : Operands α σ) (operators : Operators α) :
    b.closeBracketOr alarm fences empty offset operands ((pending, place) :: operators) =
      insist alarm (Stocked ((pending, place) :: operators) operands.length ∧
          fences.innermost + pending.arity ≤ operands.length)
        (b.reduce pending place operands operators >>= fun operands =>
          b.closeBracketOr alarm fences empty offset operands operators) := by
  cases pending with
  | binary | unary => rfl
  | paren | call => cases hp

def Builder.takeCommaOr (alarm : Failure α) (b : Builder m α σ) (fences : Fences) (s : Stacks α σ) (offset : Nat) :
    Parsing m α (Stacks α σ) := do
  if s.expectOperand then s.failMissing .missingArgumentBefore offset
  let (operands, operators) ← b.reduceWhileOr alarm fences (!·.isBracket) s.operands s.operators
  match operators with
  | (.call callee base closed, place) :: below =>
    insist alarm (base + closed + 1 ≤ operands.length) <|
      match slotFault? operands base closed offset with
      | some e => failing operands ((.call callee base (closed + 1), place) :: below) e []
      | none => return ⟨operands, (.call callee base (closed + 1), place) :: below, true⟩
  | _ => failing operands operators (ParseFault.commaOutsideCall.at offset) []

def Builder.takeClosingOr (alarm : Failure α) (b : Builder m α σ) (fences : Fences) (s : Stacks α σ) (offset : Nat) :
    Parsing m α (Stacks α σ) := do
  if s.expectOperand then
    match s.operators with
    | (.call _ _ closed, _) :: _ => if 0 < closed then s.fail .missingArgumentAfter offset
    | (.paren, _) :: _ => pure ()
    | _ => s.failMissing .unbalancedClosing offset
  let (operands, operators) ← b.closeBracketOr alarm fences s.expectOperand offset s.operands s.operators
  return ⟨operands, operators, false⟩

def Builder.takeBinaryOr (alarm : Failure α) (b : Builder m α σ) (fences : Fences) (s : Stacks α σ) (offset : Nat)
    (op : BinaryOp) : Parsing m α (Stacks α σ) := do
  if s.expectOperand then
    if op = .sub then return s.pushOperator (.unary .neg) offset
    s.fail (.missingOperand op.symbol) offset
  let (operands, operators) ← b.reduceWhileOr alarm fences (op.level ≤ ·.level) s.operands s.operators
  return ⟨operands, (.binary op, offset) :: operators, true⟩

/-- Reads a token with `alarm` if it would reach over the innermost bracket. -/
def Builder.takeTokenOr (alarm : Failure α) (b : Builder m α σ) (scope : σ) (fences : Fences) (s : Stacks α σ)
    (token : Token) (after : List Token) : Parsing m α (Advance α σ) :=
  match token.lexeme with
  | .symbol .comma => return (0, ← b.takeCommaOr alarm fences s token.offset)
  | .symbol .closing => return (0, ← b.takeClosingOr alarm fences s token.offset)
  | .symbol (.binary op) => return (0, ← b.takeBinaryOr alarm fences s token.offset op)
  | .symbol .dot =>
    insist alarm (s.expectOperand = true ∨ fences.innermost + 1 ≤ s.operands.length) <|
      b.takeToken scope s token after
  | _ => b.takeToken scope s token after

/-- Finishes with `alarm` if there is no operand at all. -/
def Builder.finishOr (alarm : Failure α) (b : Builder m α σ) (fences : Fences) (s : Stacks α σ) : Parsing m α α :=
  match s.unfinished? with
  | some (_, symbol, place) => s.fail (.missingOperand symbol) place
  | none => do
    let (operands, operators) ← b.reduceWhileOr alarm fences (!·.isBracket) s.operands s.operators
    match operators with
    | [] => insist alarm (0 < operands.length) (onlyOperand operands)
    | (_, offset) :: _ => failing operands operators (ParseFault.unbalancedOpening.at offset) []

/-- Reads with `alarm` wherever an operator would take what is not its own, an open call lacks operands, or has not
exactly its own just after it was opened or a comma was read. -/
def Builder.takeAllOr (alarm : Failure α) (b : Builder m α σ) (scope : σ) (fences : Fences) (s : Stacks α σ)
    (tokens : List Token) : Parsing m α α :=
  insist alarm (Stocked s.operators s.operands.length ∧
      (s.expectOperand = true → Fits s.operands.length s.operators)) <|
    match tokens with
    | [] => b.finishOr alarm fences s
    | token :: after => do
      let (count, s') ← b.takeTokenOr alarm scope fences s token after
      b.takeAllOr alarm scope (fences.step s s') s' (after.drop count)
termination_by tokens.length

/-- There is an operand for whatever is pending, and `need` more, between each bracket and the next one. -/
inductive Covers : Nat → Operators α → Fences → Nat → Prop
  | start {need n : Nat} (h : need ≤ n) : Covers need [] [] n
  | binary {need n offset : Nat} {op : BinaryOp} {operators : Operators α} {fences : Fences}
      (h : Covers (need + 1) operators fences n) : Covers need ((.binary op, offset) :: operators) fences n
  | unary {need n offset : Nat} {op : UnaryOp} {operators : Operators α} {fences : Fences}
      (h : Covers need operators fences n) : Covers need ((.unary op, offset) :: operators) fences n
  | paren {need n fence offset : Nat} {operators : Operators α} {fences : Fences}
      (hn : fence + need ≤ n) (h : Covers 0 operators fences fence) :
      Covers need ((.paren, offset) :: operators) (fence :: fences) n
  | call {need n base closed offset : Nat} {callee : Callee α} {operators : Operators α} {fences : Fences}
      (hn : base + closed + need ≤ n) (h : Covers 0 operators fences base) :
      Covers need ((.call callee base closed, offset) :: operators) (base :: fences) n

section

variable {need n : Nat} {operators : Operators α} {fences : Fences}

theorem Covers.slack {need' n' : Nat} (h : Covers need operators fences n) (hle : need' + n ≤ need + n') :
    Covers need' operators fences n' := by
  induction h generalizing need' n' with
  | start h => exact .start (by omega)
  | binary h ih => exact .binary (ih (by omega))
  | unary h ih => exact .unary (ih hle)
  | paren hn h ih => exact .paren (by omega) h
  | call hn h ih => exact .call (by omega) h

theorem Covers.innermost_le (h : Covers need operators fences n) : fences.innermost + need ≤ n := by
  induction h with
  | start h => simpa [Fences.innermost] using h
  | binary h ih => omega
  | unary h ih => exact ih
  | paren hn h ih => simpa [Fences.innermost] using hn
  | call hn h ih => simp only [Fences.innermost, List.headD_cons]; omega

theorem Stocked.cons {entry : Pending α × Nat} (hentry : entry.1.claims ≤ n) (h : Stocked operators n) :
    Stocked (entry :: operators) n := by
  intro x hx
  rcases List.mem_cons.mp hx with rfl | hx
  · exact hentry
  · exact h x hx

theorem Stocked.mono {n' : Nat} (h : Stocked operators n) (hle : n ≤ n') : Stocked operators n' :=
  fun x hx => Nat.le_trans (h x hx) hle

theorem Covers.stocked (h : Covers need operators fences n) : Stocked operators n := by
  induction h with
  | start h => exact fun x hx => (List.not_mem_nil hx).elim
  | binary h ih | unary h ih => exact ih.cons (Nat.zero_le _)
  | paren hn h ih => exact (ih.mono (by omega)).cons (Nat.zero_le _)
  | call hn h ih => exact (ih.mono (by omega)).cons (by simp only [Pending.claims]; omega)

/-- What an operator takes lies above the innermost bracket. -/
theorem Covers.takes {pending : Pending α} {place : Nat} (h : Covers 1 ((pending, place) :: operators) fences n)
    (hp : pending.isBracket = false) : fences.innermost + pending.arity ≤ n := by
  cases h with
  | binary h | unary h => exact h.innermost_le
  | paren | call => cases hp

end

theorem openBrackets_of_bracket {entry : Pending α × Nat} (h : entry.1.isBracket = true) (operators : Operators α) :
    openBrackets (entry :: operators) = openBrackets operators + 1 :=
  List.countP_cons_of_pos h

theorem openBrackets_of_operator {entry : Pending α × Nat} (h : entry.1.isBracket = false)
    (operators : Operators α) : openBrackets (entry :: operators) = openBrackets operators :=
  List.countP_cons_of_neg (by rw [h]; decide)

section

variable {before after : Stacks α σ} {fences : Fences}

theorem Fences.step_of_same (h : openBrackets after.operators = openBrackets before.operators) :
    fences.step before after = fences := by
  rw [Fences.step, h, if_neg (Nat.lt_irrefl _), Nat.sub_self, List.drop_zero]

theorem Fences.step_of_opened (h : openBrackets after.operators = openBrackets before.operators + 1) :
    fences.step before after = after.operands.length :: fences := by
  rw [Fences.step, if_pos (by omega)]

theorem Fences.step_of_closed (h : openBrackets before.operators = openBrackets after.operators + 1) :
    fences.step before after = fences.tail := by
  rw [Fences.step, if_neg (by omega), h, Nat.add_sub_cancel_left, List.drop_one]

end

/-- The two do the same, and what they return is as it should be, if anything is. -/
structure Agrees (x y : Parsing m α β) (Q : β → Prop) : Prop where
  same : x = y
  returns : Returns y Q

section

variable {Q : β → Prop} {P : γ → Prop}

theorem Agrees.of_returns {x : Parsing m α β} (h : Returns x Q) : Agrees x x Q := ⟨rfl, h⟩

theorem Agrees.insist {x y : Parsing m α β} {p : Prop} [Decidable p] (alarm : Failure α) (hp : p)
    (h : Agrees x y Q) : Agrees (FormulaGraph.insist alarm p x) y Q := by
  rw [FormulaGraph.insist, if_pos hp]
  exact h

theorem Agrees.bind [LawfulMonad m] {x y : Parsing m α γ} {f g : γ → Parsing m α β} (h : Agrees x y P)
    (hf : ∀ c, P c → Agrees (f c) (g c) Q) : Agrees (x >>= f) (y >>= g) Q := by
  obtain ⟨rfl, hreturns⟩ := h
  refine ⟨?_, hreturns.bind fun c hc => (hf c hc).returns⟩
  -- Only results that are as they should be are ever handed on.
  obtain ⟨z, rfl⟩ := hreturns
  rw [bind_map_left, bind_map_left]
  congr 1
  funext c
  exact (hf c.1 c.2).same

/-- What comes after a failure does not matter. -/
theorem Agrees.never [LawfulMonad m] {x : Parsing m α γ} {f g : γ → Parsing m α β} (h : Returns x fun _ => False) :
    Agrees (x >>= f) (x >>= g) Q :=
  (Agrees.of_returns h).bind fun _ hf => hf.elim

end

theorem failing_bind [LawfulMonad m] (operands : Operands α σ) (operators : Operators α) (e : FormulaError)
    (loose : List α) (f : γ → Parsing m α β) :
    (failing operands operators e loose >>= f) = failing operands operators e loose := by
  apply ExceptT.ext
  simp [failing]

section

variable [LawfulMonad m] {operands : Operands α σ} {operators : Operators α} {fences : Fences} {b : Builder m α σ}
  {s : Stacks α σ} {offset : Nat}

theorem Covers.reduce {pending : Pending α} {place : Nat}
    (h : Covers 1 ((pending, place) :: operators) fences operands.length) (offset : Nat) :
    Returns (b.reduce pending offset operands operators) fun operands' =>
      Covers 1 operators fences operands'.length := by
  cases h with
  | @binary _ _ _ op _ _ h => exact (returns_reduce_binary op offset).mono fun operands' hlength => h.slack (by omega)
  | @unary _ _ _ op _ _ h => exact (returns_reduce_unary op offset).mono fun operands' hlength => h.slack (by omega)
  | paren | call => exact returns_failing ..

theorem Covers.reduceWhile (alarm : Failure α) {test : Pending α → Bool}
    (htest : ∀ p, test p = true → p.isBracket = false) (h : Covers 1 operators fences operands.length) :
    Agrees (b.reduceWhileOr alarm fences test operands operators) (b.reduceWhile test operands operators)
      fun (operands', operators') => Covers 1 operators' fences operands'.length ∧
        openBrackets operators' = openBrackets operators := by
  induction operators generalizing operands with
  | nil => exact .of_returns (.pure ⟨h, rfl⟩)
  | cons entry operators ih =>
    obtain ⟨pending, place⟩ := entry
    rw [Builder.reduceWhileOr, Builder.reduceWhile]
    refine .insist alarm h.stocked ?_
    by_cases hp : test pending = true
    · have hbracket := htest pending hp
      rw [if_pos hp, if_pos hp]
      refine .insist alarm ⟨hbracket, h.takes hbracket⟩ ?_
      refine (Agrees.of_returns (h.reduce place)).bind fun operands' h' => ?_
      rw [openBrackets_of_operator hbracket]
      exact ih h'
    · rw [if_neg hp, if_neg hp]
      exact .of_returns (.pure ⟨h, rfl⟩)

theorem Covers.closeBracket (alarm : Failure α) (offset : Nat) {empty : Bool}
    (h : Covers (if empty then 0 else 1) operators fences operands.length)
    (htop : empty = true → ∀ entry ∈ operators.head?, entry.1.isBracket = true) :
    Agrees (b.closeBracketOr alarm fences empty offset operands operators)
      (b.closeBracket empty offset operands operators) fun (operands', operators') =>
        Covers 1 operators' fences.tail operands'.length ∧
          openBrackets operators = openBrackets operators' + 1 := by
  induction operators generalizing operands with
  | nil => exact .of_returns (returns_failing ..)
  | cons entry operators ih =>
    obtain ⟨pending, place⟩ := entry
    by_cases hp : pending.isBracket = false
    · -- An operator inside the bracket, which is not empty then.
      cases empty with
      | true => exact absurd (htop rfl _ rfl) (Bool.eq_false_iff.mp hp)
      | false =>
        rw [closeBracketOr_step alarm b hp, closeBracket_step b hp, openBrackets_of_operator hp]
        refine .insist alarm ⟨h.stocked, h.takes hp⟩ ?_
        exact (Agrees.of_returns (h.reduce place)).bind fun operands' h' => ih h' nofun
    · rw [openBrackets_of_bracket ((Bool.not_eq_false _).mp hp)]
      cases h with
      | binary | unary => exact absurd rfl hp
      | paren hn h =>
        rw [Builder.closeBracketOr]
        refine .of_returns ?_
        cases empty with
        | true => exact returns_failing ..
        | false => exact .pure ⟨h.slack (by simp only [Bool.false_eq_true, if_false] at hn; omega), rfl⟩
      | @call _ _ base closed _ callee _ fences hn h =>
        have hfinish : Returns (b.finishCall callee base place operands operators)
            fun operands' => Covers 1 operators fences operands'.length :=
          (returns_finishCall ..).mono fun operands' hlength => h.slack (by omega)
        rw [Builder.closeBracketOr, Builder.closeBracket]
        refine .insist alarm hn (.of_returns ?_)
        cases empty with
        | true => exact hfinish.bind fun operands' h' => .pure ⟨h', rfl⟩
        | false =>
          cases slotFault? operands base closed offset with
          | some e => exact returns_failing_bind ..
          | none => exact hfinish.bind fun operands' h' => .pure ⟨h', rfl⟩

/-- Between tokens there is an operand for whatever is pending, and one more if none is expected. -/
structure Stacks.Fenced (s : Stacks α σ) (fences : Fences) : Prop where
  covers : Covers (if s.expectOperand then 0 else 1) s.operators fences s.operands.length
  fits : s.expectOperand = true → Fits s.operands.length s.operators

/-- Something has been read. -/
def Stacks.Begun (s : Stacks α σ) : Prop := s.expectOperand = true → s.operators ≠ []

/-- What there is to say after a token. -/
def Stacks.Follows (s : Stacks α σ) (fences : Fences) (s' : Stacks α σ) : Prop :=
  s'.Fenced (fences.step s s') ∧ s'.Begun

/-- Nothing is lost by waiting for an operand. -/
theorem Stacks.Fenced.covers_zero (h : s.Fenced fences) : Covers 0 s.operators fences s.operands.length :=
  h.covers.slack (by omega)

theorem Covers.push {s' : Stacks α σ} (h : Covers 0 s.operators fences s.operands.length)
    (hoperators : s'.operators = s.operators) (hlength : s'.operands.length = s.operands.length + 1) (hexpect : s'.expectOperand = false) :
    s.Follows fences s' := by
  have hstep : fences.step s s' = fences := Fences.step_of_same (by rw [hoperators])
  refine ⟨⟨?_, fun he => ?_⟩, fun he => ?_⟩
  · rw [hstep, hoperators, hexpect]
    exact h.slack (by simp only [Bool.false_eq_true, if_false]; omega)
  · rw [hexpect] at he
    cases he
  · rw [hexpect] at he
    cases he

theorem Covers.openParen (h : Covers 0 s.operators fences s.operands.length) (offset : Nat) :
    s.Follows fences (s.pushOperator .paren offset) := by
  refine ⟨⟨?_, fun _ => trivial⟩, fun _ => List.cons_ne_nil _ _⟩
  rw [Fences.step_of_opened (openBrackets_of_bracket rfl _)]
  exact .paren (Nat.le_refl _) h

theorem Covers.openCall (h : Covers 0 s.operators fences s.operands.length) (callee : Callee α) (offset : Nat) :
    s.Follows fences (s.openCall callee offset) := by
  refine ⟨⟨?_, fun _ => rfl⟩, fun _ => List.cons_ne_nil _ _⟩
  rw [Fences.step_of_opened (openBrackets_of_bracket rfl _)]
  exact .call (Nat.le_refl _) h

theorem Covers.pushUnary (h : Covers 0 s.operators fences s.operands.length) (op : UnaryOp) (offset : Nat) :
    s.Follows fences (s.pushOperator (.unary op) offset) := by
  refine ⟨⟨?_, fun _ => trivial⟩, fun _ => List.cons_ne_nil _ _⟩
  rw [Fences.step_of_same (openBrackets_of_operator rfl _)]
  exact .unary h

theorem Stacks.Fenced.takeNumber (h : s.Fenced fences) (offset : Nat) (digits : String) (after : List Token) :
    Returns (b.takeNumber s offset digits after) fun (_, s') => s.Follows fences s' := by
  unfold Builder.takeNumber
  split
  · refine (Returns.trivial _).bind fun literal _ => ?_
    cases suffixIn? after with
    | none => exact .pure (h.covers_zero.push rfl rfl rfl)
    | some suffix =>
      exact (returns_calculateOn ..).bind fun operands' hlength => .pure (h.covers_zero.push rfl hlength rfl)
  · exact .throw _

theorem Stacks.Fenced.takeName (h : s.Fenced fences) (scope : σ) (offset : Nat) (name : String) :
    Returns (b.takeName scope s offset name) fun s' => s.Follows fences s' := by
  have hpush : ∀ found : Found α σ, s.Follows fences (s.push found offset name) :=
    fun found => h.covers_zero.push rfl rfl rfl
  unfold Builder.takeName
  split
  · exact (Returns.trivial _).bind fun _ _ => .pure (hpush _)
  · split
    · exact (Returns.trivial _).bind fun _ _ => .pure (hpush _)
    · refine (Returns.trivial _).bind fun found _ => ?_
      cases found with
      | some found => exact .pure (hpush found)
      | none =>
        dsimp only
        split
        · exact (Returns.trivial _).bind fun _ _ => .pure (hpush _)
        · exact .throw _

theorem Stacks.Fenced.takeComma (alarm : Failure α) (h : s.Fenced fences) (offset : Nat) :
    Agrees (b.takeCommaOr alarm fences s offset) (b.takeComma s offset) fun s' => s.Follows fences s' := by
  unfold Builder.takeCommaOr Builder.takeComma
  by_cases hexpect : s.expectOperand = true
  · rw [if_pos hexpect, if_pos hexpect]
    exact .never (returns_failMissing ..)
  · have hcovers := h.covers
    rw [if_neg hexpect] at hcovers
    simp only [if_neg hexpect]
    refine (hcovers.reduceWhile alarm fun p hp => by simpa using hp).bind fun piles hpiles => ?_
    obtain ⟨operands, operators⟩ := piles
    obtain ⟨h', hopen⟩ := hpiles
    cases operators with
    | nil => exact .of_returns (returns_failing ..)
    | cons entry below =>
      obtain ⟨pending, place⟩ := entry
      cases h' with
      | binary | unary | paren => exact .of_returns (returns_failing ..)
      | @call _ _ base closed _ callee _ fences hn h' =>
        dsimp only at hn hopen ⊢
        refine .insist alarm hn (.of_returns ?_)
        cases hslot : slotFault? operands base closed offset with
        | some e => exact returns_failing ..
        | none =>
          have hlength := length_of_slotFault? hslot
          refine .pure ⟨⟨?_, fun _ => hlength⟩, fun _ => List.cons_ne_nil _ _⟩
          rw [Fences.step_of_same (by rw [← hopen, openBrackets_of_bracket rfl, openBrackets_of_bracket rfl])]
          exact .call (Nat.le_of_eq hlength.symm) h'

theorem Stacks.Fenced.takeClosing (alarm : Failure α) (h : s.Fenced fences) (offset : Nat) :
    Agrees (b.takeClosingOr alarm fences s offset) (b.takeClosing s offset) fun s' => s.Follows fences s' := by
  have hclose : (s.expectOperand = true → ∀ entry ∈ s.operators.head?, entry.1.isBracket = true) →
      Agrees (b.closeBracketOr alarm fences s.expectOperand offset s.operands s.operators >>= fun piles =>
          pure ⟨piles.1, piles.2, false⟩)
        (b.closeBracket s.expectOperand offset s.operands s.operators >>= fun piles =>
          pure ⟨piles.1, piles.2, false⟩) fun s' => s.Follows fences s' := fun htop =>
    (h.covers.closeBracket alarm offset htop).bind fun piles hpiles => by
      obtain ⟨h', hopen⟩ := hpiles
      refine .of_returns (.pure ⟨⟨?_, nofun⟩, nofun⟩)
      rw [Fences.step_of_closed hopen]
      exact h'
  unfold Builder.takeClosingOr Builder.takeClosing
  obtain ⟨operands, operators, expect⟩ := s
  cases expect with
  | false => exact hclose nofun
  | true =>
    -- Only a bracket on top lets the closing mark through.
    cases operators with
    | nil => exact .never (returns_failMissing ..)
    | cons entry below =>
      obtain ⟨pending, place⟩ := entry
      have hpass : pending.isBracket = true → _ := fun hp => hclose fun _ entry hentry => by
        cases hentry
        exact hp
      cases pending with
      | paren => exact hpass rfl
      | call callee base closed =>
        dsimp only
        by_cases hclosed : 0 < closed
        · simp only [if_pos hclosed]
          exact .never (returns_failing ..)
        · simp only [if_neg hclosed]
          exact hpass rfl
      | binary | unary => exact .never (returns_failMissing ..)

theorem Stacks.Fenced.takeBinary (alarm : Failure α) (h : s.Fenced fences) (offset : Nat) (op : BinaryOp) :
    Agrees (b.takeBinaryOr alarm fences s offset op) (b.takeBinary s offset op) fun s' => s.Follows fences s' := by
  unfold Builder.takeBinaryOr Builder.takeBinary
  by_cases hexpect : s.expectOperand = true
  · rw [if_pos hexpect, if_pos hexpect]
    by_cases hsub : op = .sub
    · rw [if_pos hsub, if_pos hsub]
      exact .of_returns (.pure (h.covers_zero.pushUnary .neg offset))
    · rw [if_neg hsub, if_neg hsub]
      exact .never (returns_failing ..)
  · have hcovers := h.covers
    rw [if_neg hexpect] at hcovers ⊢
    rw [if_neg hexpect]
    have htest : ∀ p : Pending α, decide (op.level ≤ p.level) = true → p.isBracket = false := fun p hp => by
      have hpos := op.level_bounds.1
      have hle := of_decide_eq_true hp
      cases p with
      | binary | unary => rfl
      | paren | call => exact absurd hle (Nat.not_le.mpr hpos)
    refine (hcovers.reduceWhile alarm htest).bind fun piles hpiles => ?_
    obtain ⟨operands, operators⟩ := piles
    obtain ⟨h', hopen⟩ := hpiles
    refine .of_returns (.pure ⟨⟨?_, fun _ => trivial⟩, fun _ => List.cons_ne_nil _ _⟩)
    rw [Fences.step_of_same ((openBrackets_of_operator rfl _).trans hopen)]
    exact .binary h'

theorem Stacks.Fenced.takeMember (h : s.Fenced fences) (dot : Nat) (after : List Token) :
    Returns (b.takeMember s dot after) fun (_, s') => s.Follows fences s' := by
  obtain ⟨operands, operators, expect⟩ := s
  unfold Builder.takeMember
  split
  next offset name rest =>
    cases expect with
    | true => exact returns_failing_bind ..
    | false =>
      cases operands with
      | nil => exact returns_failing ..
      | cons x operands =>
        -- The receiver was pushed behind the bracket, so that taking it away uncovers nothing.
        have hbelow : Covers 0 operators fences operands.length :=
          h.covers.slack (by simp only [Bool.false_eq_true, if_false, List.length_cons]; omega)
        simp only [Bool.false_eq_true, if_false]
        cases x.operand with
        | value a =>
          refine (Returns.trivial _).bind fun kind _ => ?_
          cases kind with
          | error e => exact returns_failing ..
          | ok kind =>
            dsimp only
            split
            · cases kind.method? name with
              | none => exact returns_failing ..
              | some f =>
                exact .pure (Covers.openCall (s := ⟨operands, operators, false⟩) hbelow (.method f a) offset)
            · cases kind.field? name with
              | none => exact returns_failing ..
              | some f =>
                refine (returns_calculateOn ..).bind fun operands' hlength => .pure ?_
                exact Covers.push (s := ⟨operands, operators, false⟩) hbelow rfl hlength rfl
        | scope inner =>
          dsimp only
          split
          · exact returns_failing_bind ..
          · refine (Returns.trivial _).bind fun found _ => ?_
            cases found with
            | none => exact returns_failing ..
            | some found => exact .pure (Covers.push (s := ⟨operands, operators, false⟩) hbelow rfl rfl rfl)
        | list => exact returns_failing ..
  next => exact returns_failing ..

theorem Stacks.Fenced.takeToken (alarm : Failure α) (h : s.Fenced fences) (scope : σ) (token : Token)
    (after : List Token) :
    Agrees (b.takeTokenOr alarm scope fences s token after) (b.takeToken scope s token after)
      fun (_, s') => s.Follows fences s' := by
  obtain ⟨offset, lexeme⟩ := token
  unfold Builder.takeTokenOr
  cases lexeme with
  | number digits => exact .of_returns (h.takeNumber offset digits after)
  | text contents =>
    exact .of_returns ((Returns.trivial _).bind fun literal _ => .pure (h.covers_zero.push rfl rfl rfl))
  | name name =>
    refine .of_returns ?_
    rw [Builder.takeToken]
    dsimp only
    split
    · cases Builtin.ofName? name with
      | some f => exact .pure (h.covers_zero.openCall (.builtin f) offset)
      | none => exact returns_failing ..
    · exact (h.takeName scope offset name).bind fun s' h' => .pure h'
  | symbol symbol =>
    cases symbol with
    | opening => exact .of_returns (.pure (h.covers_zero.openParen offset))
    | closing => exact (h.takeClosing alarm offset).bind fun s' h' => .of_returns (.pure h')
    | comma => exact (h.takeComma alarm offset).bind fun s' h' => .of_returns (.pure h')
    | dot =>
      refine .insist alarm ?_ (.of_returns (h.takeMember offset after))
      by_cases hexpect : s.expectOperand = true
      · exact .inl hexpect
      · have hcovers := h.covers
        rw [if_neg hexpect] at hcovers
        exact .inr hcovers.innermost_le
    | not =>
      refine .of_returns ?_
      dsimp only [Builder.takeToken, Builder.takeSymbol]
      split
      · exact .pure (h.covers_zero.pushUnary .not offset)
      · exact returns_failing ..
    | binary op => exact (h.takeBinary alarm offset op).bind fun s' h' => .of_returns (.pure h')

theorem Stacks.Fenced.finish (alarm : Failure α) (h : s.Fenced fences) (hbegun : s.Begun) :
    b.finishOr alarm fences s = b.finish s := by
  rw [Builder.finish_eq, Builder.finishOr]
  cases hunfinished : s.unfinished? with
  | some unfinished => rfl
  | none =>
    dsimp only
    rw [Builder.reduceAll, bind_assoc]
    by_cases hexpect : s.expectOperand = true
    · -- What comes last is an open bracket then.
      cases hs : s.operators with
      | nil => exact absurd hs (hbegun hexpect)
      | cons entry below =>
        obtain ⟨pending, place⟩ := entry
        have hsymbol := s.symbol?_of_finished hunfinished hexpect (pending, place) (by rw [hs]; rfl)
        have hbracket : pending.isBracket = true := by
          cases pending with
          | paren | call => rfl
          | binary | unary => cases hsymbol
        have hstocked := h.covers.stocked
        rw [hs] at hstocked
        rw [Builder.reduceWhileOr, FormulaGraph.insist, if_pos hstocked, if_neg (by simp [hbracket]),
          reduceWhile_bracket b hbracket, pure_bind, pure_bind]
        exact (failing_bind ..).symm
    · have hcovers := h.covers
      rw [if_neg hexpect] at hcovers
      refine ((hcovers.reduceWhile alarm fun p hp => by simpa using hp).bind (Q := fun _ => True)
        fun piles hpiles => ?_).same
      obtain ⟨operands, operators⟩ := piles
      obtain ⟨h', -⟩ := hpiles
      cases operators with
      | nil =>
        dsimp only
        rw [pure_bind]
        exact .insist alarm (Nat.lt_of_lt_of_le (Nat.succ_pos _) h'.innermost_le) (.of_returns (.trivial _))
      | cons entry below => exact ⟨(failing_bind ..).symm, .trivial _⟩

/-- From a place where something has been read, or is still to be read, no alarm is raised. -/
theorem Stacks.Fenced.takeAll (alarm : Failure α) (h : s.Fenced fences) (scope : σ) (tokens : List Token)
    (hbegun : tokens = [] → s.Begun) :
    b.takeAllOr alarm scope fences s tokens = b.takeAll scope s tokens := by
  induction hlength : tokens.length using Nat.strongRecOn generalizing s fences tokens with
  | _ n ih =>
    cases tokens with
    | nil =>
      rw [Builder.takeAllOr, FormulaGraph.insist, if_pos ⟨h.covers.stocked, h.fits⟩, Builder.takeAll]
      exact h.finish alarm (hbegun rfl)
    | cons token after =>
      rw [Builder.takeAllOr, FormulaGraph.insist, if_pos ⟨h.covers.stocked, h.fits⟩, Builder.takeAll]
      refine ((h.takeToken alarm scope token after).bind (Q := fun _ => True) fun advance hfollows => ?_).same
      obtain ⟨count, s'⟩ := advance
      have hdrop : (after.drop count).length < n := by
        rw [← hlength, List.length_drop, List.length_cons]
        omega
      have hrest := ih _ hdrop hfollows.1 (after.drop count) (fun _ => hfollows.2) rfl
      dsimp only
      rw [hrest]
      exact .of_returns (.trivial _)

/-- Whatever the tokens, the scope and the builder, each operator takes only operands that were pushed after the
innermost open bracket, and every open call has at least the operands outside and its arguments, and just these
after it was opened and after a comma. Only no tokens at all have no value. -/
theorem takeAllOr_eq (alarm : Failure α) (b : Builder m α σ) (scope : σ) :
    (∀ tokens, tokens ≠ [] → b.takeAllOr alarm scope [] {} tokens = b.takeAll scope {} tokens) ∧
      b.takeAll scope {} [] = throw ⟨ParseFault.noValue.at 0, []⟩ := by
  refine ⟨fun tokens htokens => ?_, ?_⟩
  · have hstart : Stacks.Fenced ({} : Stacks α σ) [] := ⟨.start (Nat.le_refl _), fun _ => rfl⟩
    exact hstart.takeAll alarm scope tokens fun h => absurd h htokens
  · rw [Builder.takeAll, Builder.finish_eq]
    exact (bind_assoc ..).trans ((pure_bind ..).trans (pure_bind ..))

/-- Calls in brackets in calls, with prefix operators before them. -/
theorem takeAllOr_eq_nested :
    ∃ tokens, tokenize "-max(1, -(2 + 3) * 4) * (5 + min(6, max(7, 8)))" = .ok tokens ∧ tokens ≠ [] ∧
      ∀ alarm, valueBuilder.takeAllOr alarm () [] {} tokens = valueBuilder.takeAll () {} tokens := by
  have hcount : (tokenize "-max(1, -(2 + 3) * 4) * (5 + min(6, max(7, 8)))").toOption.map List.length = some 30 := by
    decide +kernel
  cases htokens : tokenize "-max(1, -(2 + 3) * 4) * (5 + min(6, max(7, 8)))" with
  | error e =>
    rw [htokens] at hcount
    cases hcount
  | ok tokens =>
    rw [htokens] at hcount
    have hne : tokens ≠ [] := by
      rintro rfl
      cases hcount
    exact ⟨tokens, rfl, hne, fun alarm => (takeAllOr_eq alarm valueBuilder ()).1 tokens hne⟩

end

end FormulaGraph
