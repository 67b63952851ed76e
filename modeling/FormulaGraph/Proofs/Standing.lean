import FormulaGraph.Proofs.Awaiting
import FormulaGraph.Formula.Parse

/-! What the tokens so far stand for. Whatever the builder makes of them, they spell the trees on the stacks,
or there is an operand too many. -/

namespace FormulaGraph

variable {m : Type → Type} [Monad m] [LawfulMonad m] {α σ β γ : Type}

/-- What is returned is as it should be, if anything is. -/
def Returns (x : Parsing m α β) (Q : β → Prop) : Prop :=
  ∃ y : Parsing m α { b // Q b }, Subtype.val <$> y = x

section

variable {Q : β → Prop} {P : γ → Prop}

theorem Returns.pure {b : β} (h : Q b) : Returns (pure b : Parsing m α β) Q :=
  ⟨Pure.pure ⟨b, h⟩, by simp⟩

theorem Returns.throw (e : Failure α) : Returns (throw e : Parsing m α β) Q :=
  ⟨MonadExcept.throw e, by
    apply ExceptT.ext
    simp⟩

theorem Returns.bind {x : Parsing m α γ} {f : γ → Parsing m α β} (hx : Returns x P)
    (hf : ∀ c, P c → Returns (f c) Q) : Returns (x >>= f) Q := by
  obtain ⟨y, rfl⟩ := hx
  refine ⟨y >>= fun c => (hf c.1 c.2).choose, ?_⟩
  rw [map_bind, bind_map_left]
  congr 1
  funext c
  exact (hf c.1 c.2).choose_spec

theorem Returns.mono {x : Parsing m α β} {Q' : β → Prop} (h : Returns x Q) (hQ : ∀ b, Q b → Q' b) :
    Returns x Q' := by
  rw [← bind_pure x]
  exact h.bind fun b hb => .pure (hQ b hb)

theorem Returns.trivial (x : Parsing m α β) : Returns x fun _ => True :=
  ⟨(⟨·, True.intro⟩) <$> x, by simp⟩

theorem Returns.of_run {S : Type} {x : Parsing (StateM S) α β} (h : Returns x Q) {s s' : S} {b : β}
    (hb : x.run.run s = (.ok b, s')) : Q b := by
  obtain ⟨y, rfl⟩ := h
  rw [ExceptT.run_map, StateT.run_map] at hb
  generalize y.run.run s = r at hb
  obtain ⟨e | c, t⟩ := r
  · cases hb
  · cases hb
    exact c.2

end

section

variable {Q : β → Prop} {operands : Operands α σ} {operators : Operators α} {b : Builder m α σ}

theorem returns_failing (operands : Operands α σ) (operators : Operators α) (e : FormulaError)
    (loose : List α) : Returns (failing operands operators e loose : Parsing m α β) Q :=
  .throw _

theorem returns_failing_bind {P : β → Prop} (operands : Operands α σ) (operators : Operators α)
    (e : FormulaError) (loose : List α) (f : γ → Parsing m α β) :
    Returns (failing operands operators e loose >>= f) P :=
  (returns_failing (Q := fun _ => False) operands operators e loose).bind fun _ h => h.elim

theorem returns_failMissing (s : Stacks α σ) (otherwise : ParseFault) (offset : Nat) :
    Returns (s.failMissing otherwise offset : Parsing m α β) Q := by
  unfold Stacks.failMissing
  split
  · split
    · exact .throw _
    · exact .throw _
  · exact .throw _

theorem returns_calculateOn (operation : Operation) (arguments : List α) (offset : Nat) :
    Returns (b.calculateOn operands operators operation arguments offset) fun operands' =>
      operands'.length = operands.length + 1 := by
  refine (Returns.trivial _).bind fun r _ => ?_
  cases r with
  | ok a => exact .pure rfl
  | error e => exact returns_failing ..

theorem returns_popValue (symbol : String) (offset : Nat) (loose : List α) :
    Returns (popValue operands operators symbol offset loose : Parsing m α _) fun (_, operands') =>
      operands.length = operands'.length + 1 := by
  cases operands with
  | nil => exact returns_failing ..
  | cons e operands =>
    rw [popValue]
    obtain ⟨operand, place, name⟩ := e
    cases operand with
    | value a => exact .pure rfl
    | scope | list => exact returns_failing ..

theorem returns_reduce_binary (op : BinaryOp) (offset : Nat) :
    Returns (b.reduce (.binary op) offset operands operators) fun operands' =>
      operands.length = operands'.length + 1 := by
  refine (returns_popValue ..).bind fun (right, rest) hright => ?_
  refine (returns_popValue ..).bind fun (left, rest') hleft => ?_
  refine (returns_calculateOn ..).mono fun operands' h => ?_
  dsimp only at hright hleft
  omega

theorem returns_reduce_unary (op : UnaryOp) (offset : Nat) :
    Returns (b.reduce (.unary op) offset operands operators) fun operands' =>
      operands.length = operands'.length := by
  refine (returns_popValue ..).bind fun (a, rest) ha => ?_
  refine (returns_calculateOn ..).mono fun operands' h => ?_
  dsimp only at ha
  omega

/-- The arguments give way to one operand. -/
theorem returns_finishCall (callee : Callee α) (base offset : Nat) :
    Returns (b.finishCall callee base offset operands operators) fun operands' =>
      operands'.length = operands.length - (operands.length - base) + 1 := by
  have hbelow : (operands.drop (operands.length - base)).length =
      operands.length - (operands.length - base) := List.length_drop
  rw [Builder.finishCall, ← hbelow]
  split
  · exact returns_failing ..
  · cases callee with
    | builtin f =>
      dsimp only
      split
      · exact returns_calculateOn ..
      · exact returns_failing ..
    | method method receiver =>
      dsimp only
      split
      · exact returns_calculateOn ..
      · exact returns_failing ..

theorem length_of_slotFault? {base slot offset : Nat}
    (h : slotFault? operands base slot offset = none) : operands.length = base + slot + 1 := by
  unfold slotFault? at h
  split at h
  · cases h
  next hnone =>
    have hle := List.getElem?_eq_none_iff.mp hnone
    rw [List.length_reverse] at hle
    split at h
    · cases h
    next hlt => omega

end

/-- The tokens end in a tree of level `t` that nothing has taken yet. -/
def Stands (t : Nat) (operands : Operands α σ) (operators : Operators α) (ts : List Token) : Prop :=
  ∃ n, operands.length = n + 1 ∧ (Over operators n ∨ ∃ k e us vs, Awaits operators n k us ∧
    Spells k e vs ∧ Spells t e vs ∧ ts = us ++ vs)

/-- A bracket on top has nothing in it, or a comma has just ended the last argument. -/
def Fits (n : Nat) : Operators α → Prop
  | [] => n = 0
  | (.call _ base closed, _) :: _ => n = base + closed
  | _ => True

/-- The tokens end where an operand has to come next. -/
def Waits (n : Nat) (operators : Operators α) (ts : List Token) : Prop :=
  Fits n operators ∧ (Over operators n ∨ ∃ k, Awaits operators n k ts)

/-- The tokens so far are what the stacks stand for. -/
def Stacks.Spelled (s : Stacks α σ) (ts : List Token) : Prop :=
  if s.expectOperand = true then Waits s.operands.length s.operators ts
  else Stands 8 s.operands s.operators ts

section

variable {operands : Operands α σ} {operators : Operators α} {b : Builder m α σ} {t : Nat}
  {ts us : List Token} {e : Expr} {s : Stacks α σ}

theorem Stands.mono {t' : Nat} (h : Stands t operands operators ts) (ht : t' ≤ t) :
    Stands t' operands operators ts := by
  obtain ⟨n, hn, h⟩ := h
  refine ⟨n, hn, h.imp_right fun ⟨k, e, us, vs, hawaits, hk, he, hts⟩ => ?_⟩
  exact ⟨k, e, us, vs, hawaits, hk, he.mono ht, hts⟩

/-- Another operand may come at any time, but two in a row are one too many. -/
theorem Stacks.Spelled.over_or (h : s.Spelled ts) :
    Over s.operators s.operands.length ∨ ∃ k, Awaits s.operators s.operands.length k ts := by
  unfold Stacks.Spelled at h
  split at h
  · exact h.2
  · obtain ⟨n, hn, hover | ⟨k, e, us, vs, hawaits, -⟩⟩ := h
    · exact .inl (hn ▸ hover.more)
    · exact .inl (hn ▸ hawaits.over)

theorem Stacks.Spelled.push (h : s.Spelled ts) (he : ∀ k, Spells k e us)
    (hlength : operands.length = s.operands.length + 1) : Stands 8 operands s.operators (ts ++ us) := by
  refine ⟨_, hlength, h.over_or.imp_right fun ⟨k, hawaits⟩ => ?_⟩
  exact ⟨k, e, ts, us, hawaits, he k, he 8, rfl⟩

theorem Stands.spelled {expect : Bool} (h : Stands 8 operands operators ts) (hexpect : expect = false) :
    Stacks.Spelled ⟨operands, operators, expect⟩ ts := by
  subst hexpect
  exact h

theorem Stands.reduce {pending : Pending α} {place : Nat}
    (h : Stands t operands ((pending, place) :: operators) ts) (ht : t ≤ pending.level) (offset : Nat) :
    Returns (b.reduce pending offset operands operators) fun operands' =>
      Stands t operands' operators ts := by
  obtain ⟨n, hn, h⟩ := h
  cases pending with
  | binary op =>
    refine (returns_reduce_binary op offset).mono fun operands' hlength => ?_
    rcases h with ⟨hpos, hover⟩ | ⟨k, e, us, vs, hawaits, hk, he, rfl⟩
    · exact ⟨n - 1, by omega, .inl hover⟩
    · cases hawaits with
      | @binary _ n k ts us l _ _ hawaits hle hl =>
        refine ⟨n, by omega, .inr ⟨k, _, ts, us ++ ⟨place, .symbol (.binary op)⟩ :: vs, hawaits,
          .binary op place hle hl hk, .binary op place ht hl hk, ?_⟩⟩
        simp [List.append_assoc]
  | unary op =>
    refine (returns_reduce_unary op offset).mono fun operands' hlength => ?_
    rcases h with hover | ⟨k, e, us, vs, hawaits, hk, he, rfl⟩
    · exact ⟨n, by omega, .inl hover⟩
    · cases hawaits with
      | @unary _ n k ts _ _ hawaits hle =>
        refine ⟨n, by omega, .inr ⟨k, _, ts, ⟨place, .symbol op.mark⟩ :: vs, hawaits,
          .unary op place hle hk, .unary op place ht hk, ?_⟩⟩
        simp [List.append_assoc]
  | paren => exact returns_failing ..
  | call callee base closed => exact returns_failing ..

theorem Stands.reduceWhile {test : Pending α → Bool} (h : Stands t operands operators ts)
    (htest : ∀ p, test p = true → t ≤ p.level) :
    Returns (b.reduceWhile test operands operators) fun (operands', operators') =>
      Stands t operands' operators' ts ∧ ∀ p ∈ operators'.head?, test p.1 = false := by
  induction operators generalizing operands with
  | nil => exact .pure ⟨h, fun p hp => by cases hp⟩
  | cons entry operators ih =>
    obtain ⟨pending, place⟩ := entry
    rw [Builder.reduceWhile]
    by_cases hp : test pending = true
    · rw [if_pos hp]
      exact (h.reduce (htest pending hp) place).bind fun operands' h' => ih h'
    · rw [if_neg hp]
      refine .pure ⟨h, fun p hmem => ?_⟩
      obtain rfl := Option.some.inj hmem
      exact Bool.eq_false_iff.mpr hp

theorem Stands.group {place : Nat} (h : Stands t operands ((.paren, place) :: operators) ts) (ht : t = 0)
    (closing : Nat) : Stands 8 operands operators (ts ++ [⟨closing, .symbol .closing⟩]) := by
  subst ht
  obtain ⟨n, hn, hover | ⟨k, e, us, vs, hawaits, hk, he, rfl⟩⟩ := h
  · exact ⟨n, hn, .inl hover⟩
  · cases hawaits with
    | @paren _ n k ts _ hawaits =>
      refine ⟨n, hn, .inr ⟨k, .group e, ts,
        ⟨place, .symbol .opening⟩ :: (vs ++ [⟨closing, .symbol .closing⟩]), hawaits,
        .group place closing he, .group place closing he, ?_⟩⟩
      simp [List.append_assoc]

/-- A call with its arguments becomes an operand. -/
theorem Awaits.call {callee : Callee α} {base closed place n k : Nat} {es : List Expr}
    (h : Awaits ((.call callee base closed, place) :: operators) n k ts)
    (hs : ∀ fs vs, SpellsEach fs vs → fs.length = closed → SpellsAll (fs ++ es) (vs ++ us)) (closing : Nat) :
    ∃ e k ts' vs, Awaits operators base k ts' ∧ (∀ k', Spells k' e vs) ∧
      ts ++ us ++ [⟨closing, .symbol .closing⟩] = ts' ++ vs := by
  cases h with
  | @builtin _ _ k ts vs fs f name _ opening h heach =>
    refine ⟨.call name (fs ++ es) place, k, ts, _, h,
      fun k' => .call name place opening closing (hs fs vs heach rfl), ?_⟩
    simp [List.append_assoc]
  | @method _ _ k ts us' vs e fs f a name dot _ opening h he heach =>
    refine ⟨.method e name (fs ++ es) place, k, ts, _, h,
      fun k' => .method name dot place opening closing he (hs fs vs heach rfl), ?_⟩
    simp [List.append_assoc]

theorem SpellsEach.eq_nil {fs : List Expr} {vs : List Token} (h : SpellsEach fs vs) (hfs : fs.length = 0) :
    fs = [] ∧ vs = [] := by
  cases h with
  | nil => exact ⟨rfl, rfl⟩
  | next comma hs he => simp at hfs

theorem Waits.endCall {callee : Callee α} {base closed place n : Nat}
    (h : Waits n ((.call callee base closed, place) :: operators) ts) (hclosed : closed = 0)
    (hlength : operands.length = base + 1) (closing : Nat) :
    Stands 8 operands operators (ts ++ [⟨closing, .symbol .closing⟩]) := by
  subst hclosed
  obtain ⟨hfits, hover | ⟨k, hawaits⟩⟩ := h
  · rcases hover with hlt | ⟨-, hover⟩
    · exact absurd hlt (Nat.not_lt.mpr (Nat.le_of_eq hfits))
    · exact ⟨base, hlength, .inl hover⟩
  · have hall : ∀ fs vs, SpellsEach fs vs → fs.length = 0 → SpellsAll (fs ++ []) (vs ++ []) := by
      intro fs vs heach hfs
      obtain ⟨rfl, rfl⟩ := heach.eq_nil hfs
      exact .nil
    obtain ⟨e, k', us, vs, hbelow, he, hts⟩ := hawaits.call hall closing
    rw [List.append_nil] at hts
    exact ⟨base, hlength, .inr ⟨k', e, us, vs, hbelow, he k', he 8, hts⟩⟩

theorem Stands.endCall {callee : Callee α} {base closed place : Nat} {operands' : Operands α σ}
    (h : Stands t operands ((.call callee base closed, place) :: operators) ts) (ht : t = 0)
    (hslot : operands.length = base + closed + 1) (hlength : operands'.length = base + 1) (closing : Nat) :
    Stands 8 operands' operators (ts ++ [⟨closing, .symbol .closing⟩]) := by
  subst ht
  obtain ⟨n, hn, hover | ⟨k, e, us, vs, hawaits, hk, he, rfl⟩⟩ := h
  · rcases hover with hlt | ⟨-, hover⟩
    · omega
    · exact ⟨base, hlength, .inl hover⟩
  · obtain ⟨e', k', us', vs', hbelow, he', hts⟩ :=
      hawaits.call (fun fs vs heach _ => heach.last he) closing
    exact ⟨base, hlength, .inr ⟨k', e', us', vs', hbelow, he' k', he' 8, hts⟩⟩

theorem Stands.endArgument {callee : Callee α} {base closed place : Nat}
    (h : Stands t operands ((.call callee base closed, place) :: operators) ts) (ht : t = 0)
    (hslot : operands.length = base + closed + 1) (comma : Nat) :
    Waits operands.length ((.call callee base (closed + 1), place) :: operators)
      (ts ++ [⟨comma, .symbol .comma⟩]) := by
  subst ht
  refine ⟨hslot.trans (Nat.add_assoc ..), ?_⟩
  obtain ⟨n, hn, hover | ⟨k, e, us, vs, hawaits, hk, he, rfl⟩⟩ := h
  · rcases hover with hlt | ⟨-, hover⟩
    · omega
    · exact .inl (.inr ⟨hslot.trans (Nat.add_assoc ..), hover⟩)
  · right
    rw [hslot, Nat.add_assoc, List.append_assoc]
    cases hawaits with
    | @builtin _ _ k ts us fs f name _ opening h heach =>
      have hnext := Awaits.builtin (f := f) name place opening h (heach.next comma he)
      rw [List.length_append, List.length_singleton] at hnext
      exact ⟨0, by simpa [List.append_assoc] using hnext⟩
    | @method _ _ k ts us ws e' fs f a name dot _ opening h he' heach =>
      have hnext := Awaits.method (f := f) (a := a) name dot place opening h he' (heach.next comma he)
      rw [List.length_append, List.length_singleton] at hnext
      exact ⟨0, by simpa [List.append_assoc] using hnext⟩

theorem Stands.closeBracket (h : Stands 0 operands operators ts) (closing : Nat) :
    Returns (b.closeBracket false closing operands operators) fun (operands', operators') =>
      Stands 8 operands' operators' (ts ++ [⟨closing, .symbol .closing⟩]) := by
  induction operators generalizing operands with
  | nil => exact returns_failing ..
  | cons entry operators ih =>
    obtain ⟨pending, place⟩ := entry
    cases pending with
    | paren => exact .pure (h.group rfl closing)
    | call callee base closed =>
      rw [Builder.closeBracket]
      cases hslot : slotFault? operands base closed closing with
      | some e => exact returns_failing_bind ..
      | none =>
        have hlength := length_of_slotFault? hslot
        refine (returns_finishCall ..).bind fun operands' hfinished => .pure ?_
        exact h.endCall rfl hlength (by omega) closing
    | binary op =>
      rw [Builder.closeBracket]
      · exact (h.reduce (Nat.zero_le _) place).bind fun operands' h' => ih h'
      all_goals nofun
    | unary op =>
      rw [Builder.closeBracket]
      · exact (h.reduce (Nat.zero_le _) place).bind fun operands' h' => ih h'
      all_goals nofun

end

end FormulaGraph
