import FormulaGraph.Proofs.Accepting
import FormulaGraph.Proofs.Blaming

/-! Reading a formula keeps what building keeps. Operands on the stacks are held by the reader; a failure
hands all of them on, and a success the one that is left. What fails is put down to a token, and a builder that
does the same things brings about the same. -/

namespace FormulaGraph

variable {S α σ β γ : Type}

theorem mem_of_countP {l l' : List α} (h : ∀ p, l'.countP p = l.countP p) {a : α} (ha : a ∈ l') : a ∈ l := by
  classical
  exact (List.perm_iff_count.mpr fun b => h (· == b)).mem_iff.mp ha

/-- What is true of the state as long as the reader holds the operands in a list. Scopes that are found
have to be open. -/
structure Builder.Keeps (b : Builder (StateM S) α σ) (I : List α → S → Prop) (Open : σ → Prop) :
    Prop where
  recount {l l' : List α} {s : S} : (∀ p, l'.countP p = l.countP p) → I l s → I l' s
  literal {l : List α} {s : S} (v : Value) :
    I l s → I (((b.literal v).run s).1 :: l) ((b.literal v).run s).2
  calculate {arguments l : List α} {s : S} (operation : Operation) (offset : Nat) :
    I (arguments ++ l) s →
      match (b.calculate operation arguments offset).run s with
      | (.ok a, s') => I (a :: l) s'
      | (.error _, s') => I l s'
  kind {a : α} {l : List α} {s : S} : a ∈ l → I l s → I l ((b.kind a).run s).2
  resolve {r : σ} {l : List α} {s : S} (name : String) : Open r → I l s →
    I ((((b.resolve r name).run s).1.bind Found.value?).toList ++ l) ((b.resolve r name).run s).2 ∧
      ∀ r', ((b.resolve r name).run s).1 = some (.scope r') → Open r'
  discard {as l : List α} {s : S} : I (as ++ l) s → I l ((b.discard as).run s).2

/-- What reading a formula may rely on: what holds while operands are held, the scopes that may be found, and
the failures that may come of it. -/
structure Contract (S α σ : Type) where
  formula : String
  holds : List α → S → Prop
  opens : σ → Prop
  fails : S → FormulaError → Prop

/-- The builder keeps what is to hold when it is asked for what tokens of the formula make, and the other one
does the same. -/
structure Builder.Honours (b b' : Builder (StateM S) α σ) (c : Contract S α σ) : Prop where
  recount {l l' : List α} {s : S} : (∀ p, l'.countP p = l.countP p) → c.holds l s → c.holds l' s
  literal {l : List α} {s : S} (v : Value) :
    c.holds l s → c.holds (((b.literal v).run s).1 :: l) ((b.literal v).run s).2
  calculate {arguments l : List α} {s : S} {operation : Operation} {offset : Nat} {lexeme : Lexeme} :
    c.holds (arguments ++ l) s → HasToken c.formula ⟨offset, lexeme⟩ → lexeme.Makes operation →
      (b'.calculate operation arguments offset).run s = (b.calculate operation arguments offset).run s ∧
        match (b.calculate operation arguments offset).run s with
        | (.ok a, s') => c.holds (a :: l) s'
        | (.error e, s') => c.holds l s' ∧ c.fails s' e
  kind {a : α} {l : List α} {s : S} : a ∈ l → c.holds l s →
    (b'.kind a).run s = (b.kind a).run s ∧ c.holds l ((b.kind a).run s).2 ∧
      ∀ e, ((b.kind a).run s).1 = .error e → c.fails ((b.kind a).run s).2 e
  resolve {r : σ} {l : List α} {s : S} (name : String) : c.opens r → c.holds l s →
    c.holds ((((b.resolve r name).run s).1.bind Found.value?).toList ++ l) ((b.resolve r name).run s).2 ∧
      ∀ r', ((b.resolve r name).run s).1 = some (.scope r') → c.opens r'
  discard {as l : List α} {s : S} : c.holds (as ++ l) s →
    c.holds l ((b.discard as).run s).2 ∧ ∀ e, c.fails s e → c.fails ((b.discard as).run s).2 e
  same : b'.literal = b.literal ∧ b'.resolve = b.resolve ∧ b'.discard = b.discard
  fault {offset : Nat} {lexeme : Lexeme} {fault : ParseFault} (s : S) :
    HasToken c.formula ⟨offset, lexeme⟩ → fault.Blames lexeme → c.fails s (fault.at offset)
  member {offset : Nat} {name : String} (s : S) :
    HasToken c.formula ⟨offset, .name name⟩ → c.fails s ((ValueFault.noMember name).at offset)
  nothing (s : S) : tokenize c.formula = .ok [] → c.fails s (ParseFault.noValue.at 0)

/-- Nothing is asked of failures. -/
theorem Builder.Keeps.honours {b : Builder (StateM S) α σ} {I : List α → S → Prop} {Open : σ → Prop}
    (hb : b.Keeps I Open) (formula : String) : b.Honours b ⟨formula, I, Open, fun _ _ => True⟩ where
  recount := hb.recount
  literal := hb.literal
  calculate {arguments l s operation offset _} h _ _ := by
    have hcalculated := hb.calculate operation offset h
    refine ⟨rfl, ?_⟩
    generalize (b.calculate operation arguments offset).run s = result at hcalculated ⊢
    obtain ⟨e | a, s'⟩ := result
    · exact ⟨hcalculated, trivial⟩
    · exact hcalculated
  kind hmem h := ⟨rfl, hb.kind hmem h, fun _ _ => trivial⟩
  resolve := hb.resolve
  discard h := ⟨hb.discard h, fun _ _ => trivial⟩
  same := ⟨rfl, rfl, rfl⟩
  fault _ _ _ := trivial
  member _ _ := trivial
  nothing _ _ := trivial

/-- Ends with a result that is as it should be, or with a failure that may come up and that hands on what was
held besides `l`. The other computation ends in the same way. -/
def Ends (c : Contract S α σ) (l : List α) (x x' : Parsing (StateM S) α β) (s : S) (Q : β → S → Prop) : Prop :=
  x'.run.run s = x.run.run s ∧
    match x.run.run s with
    | (.ok b, s') => Q b s'
    | (.error f, s') => c.holds (f.loose ++ l) s' ∧ c.fails s' f.error

/-- The operand stands for a token. If it is no value it is open, and the token is its name. -/
structure Contract.Enters (c : Contract S α σ) (e : Entry α σ) : Prop where
  opens (r : σ) : e.operand = .scope r → c.opens r
  token : ∃ lexeme, HasToken c.formula ⟨e.offset, lexeme⟩ ∧ (e.operand.value? = none → lexeme = .name e.name)

/-- What waits has been put there by a token. -/
def Contract.Awaits (c : Contract S α σ) (pending : Pending α) (offset : Nat) : Prop :=
  ∃ lexeme, HasToken c.formula ⟨offset, lexeme⟩ ∧ pending.Marked lexeme

/-- The stacks hold what they should, and `extra` is held besides. -/
structure Kept (c : Contract S α σ) (extra : List α) (operands : Operands α σ) (operators : Operators α)
    (l : List α) (s : S) : Prop where
  holds : c.holds (extra ++ held operands operators ++ l) s
  entries : ∀ e ∈ operands, c.Enters e
  pending : ∀ p ∈ operators, c.Awaits p.1 p.2

section

variable {c : Contract S α σ} {l extra : List α} {s : S} {Q : β → S → Prop} {operands : Operands α σ}
  {operators : Operators α} {p : α → Bool}

theorem Ends.pure {b : β} (h : Q b s) : Ends c l (pure b) (pure b) s Q := ⟨rfl, h⟩

theorem run_bind_except {ε : Type} (x : ExceptT ε (StateM S) γ) (f : γ → ExceptT ε (StateM S) β) (s : S) :
    (x >>= f).run.run s = match x.run.run s with
      | (.ok c, s') => (f c).run.run s'
      | (.error e, s') => (.error e, s') := by
  show StateT.run (x.run >>= ExceptT.bindCont f) s = _
  rw [StateT.run_bind]
  show StateT.run (ExceptT.bindCont f (x.run.run s).1) (x.run.run s).2 = _
  rcases x.run.run s with ⟨r, s'⟩
  cases r <;> rfl

theorem Ends.bind {x x' : Parsing (StateM S) α γ} {f f' : γ → Parsing (StateM S) α β} {P : γ → S → Prop}
    (hx : Ends c l x x' s P) (hf : ∀ a s', P a s' → Ends c l (f a) (f' a) s' Q) :
    Ends c l (x >>= f) (x' >>= f') s Q := by
  rw [Ends] at hx ⊢
  rw [run_bind_except, run_bind_except, hx.1]
  rcases hr : x.run.run s with ⟨r, s'⟩
  rw [hr] at hx
  cases r with
  | ok a => exact hf a s' hx.2
  | error f => exact ⟨rfl, hx.2⟩

theorem Ends.returns {x x' : Parsing (StateM S) α β} {R : β → Prop} (hx : Ends c l x x' s Q) (hr : Returns x R) :
    Ends c l x x' s fun b s' => Q b s' ∧ R b := by
  refine ⟨hx.1, ?_⟩
  have hends := hx.2
  rcases hrun : x.run.run s with ⟨e | b, s'⟩
  · rw [hrun] at hends
    exact hends
  · rw [hrun] at hends
    exact ⟨hends, hr.of_run hrun⟩

theorem Ends.lift {x x' : StateM S β} (hsame : x'.run s = x.run s) (h : Q (x.run s).1 (x.run s).2) :
    Ends c l (liftM x : Parsing (StateM S) α β) (liftM x') s Q := by
  refine ⟨?_, h⟩
  show (Except.ok (x'.run s).1, (x'.run s).2) = _
  rw [hsame]
  rfl

theorem countP_held : (held operands operators).countP p =
    (operands.filterMap (·.operand.value?)).countP p +
      (operators.filterMap (·.1.receiver?)).countP p := by
  simp [held, List.filterMap_reverse]

theorem countP_held_operand (e : Entry α σ) :
    (held (e :: operands) operators).countP p =
      e.operand.value?.toList.countP p + (held operands operators).countP p := by
  rw [countP_held, countP_held, List.filterMap_cons]
  cases e.operand.value? with
  | none => simp
  | some a =>
    simp only [Option.toList_some, List.countP_cons, List.countP_nil]
    omega

theorem countP_held_operator (pending : Pending α) (offset : Nat) :
    (held operands ((pending, offset) :: operators)).countP p =
      pending.receiver?.toList.countP p + (held operands operators).countP p := by
  rw [countP_held, countP_held, List.filterMap_cons]
  cases pending.receiver? with
  | none => simp
  | some a =>
    simp only [Option.toList_some, List.countP_cons, List.countP_nil]
    omega

theorem Kept.failing (h : Kept c extra operands operators l s) {e : FormulaError} (he : c.fails s e) :
    Ends c l (failing operands operators e extra : Parsing (StateM S) α β) (failing operands operators e extra) s Q :=
  ⟨rfl, h.holds, he⟩

theorem Kept.failing_bind (h : Kept c extra operands operators l s) {e : FormulaError} (he : c.fails s e)
    (f f' : γ → Parsing (StateM S) α β) :
    Ends c l (FormulaGraph.failing operands operators e extra >>= f)
      (FormulaGraph.failing operands operators e extra >>= f') s Q :=
  Ends.bind (P := fun _ _ => False) (h.failing he) fun _ _ hf => hf.elim

end

section

variable {c : Contract S α σ} {l extra arguments : List α} {s : S} {operands : Operands α σ}
  {operators : Operators α} {b b' : Builder (StateM S) α σ} {offset : Nat} {lexeme : Lexeme}

theorem Kept.recount {extra' : List α} {operands' : Operands α σ} {operators' : Operators α}
    (h : Kept c extra operands operators l s) (hb : b.Honours b' c)
    (hcount : ∀ p, extra'.countP p + (held operands' operators').countP p =
      extra.countP p + (held operands operators).countP p)
    (hentries : ∀ e ∈ operands', c.Enters e) (hpending : ∀ p ∈ operators', c.Awaits p.1 p.2) :
    Kept c extra' operands' operators' l s where
  holds := hb.recount (fun p => by
    have := hcount p
    simp only [List.countP_append]
    omega) h.holds
  entries := hentries
  pending := hpending

/-- An operand goes on the stack. -/
theorem Kept.push {a : α} {name : String} (h : Kept c (a :: extra) operands operators l s) (hb : b.Honours b' c)
    (ht : HasToken c.formula ⟨offset, lexeme⟩) : Kept c extra (⟨.value a, offset, name⟩ :: operands) operators l s := by
  refine h.recount hb (fun p => ?_) (fun e he => ?_) h.pending
  · simp only [countP_held_operand, Found.value?, Option.toList_some, List.countP_cons, List.countP_nil]
    omega
  · rcases List.mem_cons.mp he with rfl | he
    · exact ⟨nofun, lexeme, ht, nofun⟩
    · exact h.entries e he

/-- The operand that is calculated is held, if there is one. -/
def Calculated (c : Contract S α σ) (operands : Operands α σ) (operators : Operators α) (l : List α) :
    Checked α → S → Prop
  | .ok a, s => Kept c [a] operands operators l s
  | .error e, s => Kept c [] operands operators l s ∧ c.fails s e

theorem Kept.calculateOn {operation : Operation} (h : Kept c arguments operands operators l s)
    (hb : b.Honours b' c) (ht : HasToken c.formula ⟨offset, lexeme⟩) (hmakes : lexeme.Makes operation) :
    Ends c l (b.calculateOn operands operators operation arguments offset)
      (b'.calculateOn operands operators operation arguments offset) s fun operands' s' =>
        Kept c [] operands' operators l s' := by
  obtain ⟨hsame, hc⟩ := hb.calculate (List.append_assoc .. ▸ h.holds) ht hmakes
  refine Ends.bind (P := Calculated c operands operators l) (.lift hsame ?_) fun r s' hr => ?_
  · rcases hcalc : (b.calculate operation arguments offset).run s with ⟨r, s'⟩
    rw [hcalc] at hc
    cases r with
    | ok a => exact ⟨hc, h.entries, h.pending⟩
    | error e => exact ⟨⟨hc.1, h.entries, h.pending⟩, hc.2⟩
  · cases r with
    | ok a => exact .pure (Kept.push hr hb ht)
    | error e => exact hr.1.failing hr.2

theorem Kept.popValue {symbol : String} (h : Kept c extra operands operators l s) (hb : b.Honours b' c)
    (ht : HasToken c.formula ⟨offset, lexeme⟩) (hblames : (ParseFault.missingOperand symbol).Blames lexeme) :
    Ends c l (popValue operands operators symbol offset extra : Parsing (StateM S) α _)
      (popValue operands operators symbol offset extra) s fun (a, operands') s' =>
        Kept c (a :: extra) operands' operators l s' := by
  cases operands with
  | nil => exact h.failing (hb.fault _ ht hblames)
  | cons e operands =>
    rw [FormulaGraph.popValue]
    have hentries := fun e' he => h.entries e' (List.mem_cons_of_mem e he)
    obtain ⟨-, named, htoken, hname⟩ := h.entries e List.mem_cons_self
    obtain ⟨operand, place, name⟩ := e
    cases operand with
    | value a =>
      refine .pure (h.recount hb (fun p => ?_) hentries h.pending)
      simp only [countP_held_operand, Found.value?, Option.toList_some, List.countP_cons, List.countP_nil]
      omega
    | scope | list =>
      obtain rfl := hname rfl
      refine (h.recount hb (fun p => ?_) hentries h.pending).failing (hb.fault _ htoken (.notAValue name))
      simp only [countP_held_operand, Found.value?]
      simp

theorem Kept.reduce {pending : Pending α} (h : Kept c pending.receiver?.toList operands operators l s)
    (hb : b.Honours b' c) (hpending : c.Awaits pending offset) :
    Ends c l (b.reduce pending offset operands operators) (b'.reduce pending offset operands operators) s
      fun operands' s' => Kept c [] operands' operators l s' := by
  obtain ⟨lexeme, ht, hmarked⟩ := hpending
  cases pending with
  | binary op =>
    cases hmarked
    refine (h.popValue hb ht (.missingOperand (.binary op))).bind fun (right, operands) s hright => ?_
    refine (hright.popValue hb ht (.missingOperand (.binary op))).bind fun (left, operands) s hleft => ?_
    exact hleft.calculateOn hb ht (.binary op)
  | unary op =>
    refine (h.popValue hb ht (hmarked.missingOperand rfl)).bind fun (a, operands) s ha => ?_
    cases hmarked with
    | neg => exact ha.calculateOn hb ht .neg
    | not => exact ha.calculateOn hb ht .not
  | paren => exact h.failing (hb.fault _ ht (hmarked.unbalanced rfl))
  | call callee base closed => exact h.failing (hb.fault _ ht (hmarked.unbalanced rfl))

theorem Kept.popOperator {pending : Pending α} (h : Kept c [] operands ((pending, offset) :: operators) l s)
    (hb : b.Honours b' c) : Kept c pending.receiver?.toList operands operators l s :=
  h.recount hb (fun p => by
    rw [countP_held_operator]
    simp) h.entries fun p hp => h.pending p (List.mem_cons_of_mem _ hp)

/-- What is left on top does not pass the test. -/
theorem Kept.reduceWhile (h : Kept c [] operands operators l s) (hb : b.Honours b' c) (test : Pending α → Bool) :
    Ends c l (b.reduceWhile test operands operators) (b'.reduceWhile test operands operators) s
      fun (operands', operators') s' => Kept c [] operands' operators' l s' ∧
        ∀ p ∈ operators'.head?, ¬ test p.1 = true := by
  induction operators generalizing operands s with
  | nil => exact .pure ⟨h, nofun⟩
  | cons entry operators ih =>
    obtain ⟨pending, offset⟩ := entry
    rw [Builder.reduceWhile, Builder.reduceWhile]
    split
    · refine ((h.popOperator hb).reduce hb (h.pending _ List.mem_cons_self)).bind fun operands' s' h' => ?_
      exact ih h'
    next htest =>
      refine .pure ⟨h, fun p hp => ?_⟩
      cases hp
      exact htest

theorem countP_takeValues (entries : List (Entry α σ)) (taken : List α) (p : α → Bool) :
    match takeValues entries taken with
    | .ok values =>
      values.countP p = taken.countP p + (entries.filterMap (·.operand.value?)).countP p
    | .error (_, loose) =>
      loose.countP p = taken.countP p + (entries.filterMap (·.operand.value?)).countP p := by
  induction entries generalizing taken with
  | nil => simp [takeValues]
  | cons e entries ih =>
    rw [takeValues]
    cases he : e.operand with
    | value a =>
      have := ih (a :: taken)
      rw [List.filterMap_cons, he]
      simp only [Found.value?, List.countP_cons] at this ⊢
      rcases hr : takeValues entries (a :: taken) with ⟨e, loose⟩ | values <;> rw [hr] at this <;>
        simp only at this ⊢ <;> omega
    | scope | list =>
      simp [he, Found.value?]
      omega

theorem countP_held_split (operands : Operands α σ) (operators : Operators α) (count : Nat)
    (p : α → Bool) :
    (held operands operators).countP p =
      ((operands.take count).reverse.filterMap (·.operand.value?)).countP p +
        (held (operands.drop count) operators).countP p := by
  have hsplit := congrArg (fun xs : Operands α σ => (xs.filterMap (·.operand.value?)).countP p)
    (List.take_append_drop count operands)
  simp only [List.filterMap_append, List.countP_append] at hsplit
  rw [countP_held, countP_held, List.filterMap_reverse, List.countP_reverse]
  omega

theorem receiver?_call (callee : Callee α) (base closed base' closed' : Nat) :
    (Pending.call callee base closed).receiver? = (Pending.call callee base' closed').receiver? := by
  cases callee <;> rfl

theorem Kept.finishCall {callee : Callee α} {base : Nat}
    (h : Kept c (Pending.call callee base 0).receiver?.toList operands operators l s) (hb : b.Honours b' c)
    (hpending : c.Awaits (.call callee base 0) offset) :
    Ends c l (b.finishCall callee base offset operands operators) (b'.finishCall callee base offset operands operators)
      s fun operands' s' => Kept c [] operands' operators l s' := by
  have htaken := countP_takeValues (operands.take (operands.length - base)).reverse []
  have hsplit := fun p : α → Bool => countP_held_split operands operators
    (operands.length - base) p
  have hentries := fun e he => h.entries e (List.mem_of_mem_drop (i := operands.length - base) he)
  obtain ⟨lexeme, ht, hmarked⟩ := hpending
  rw [Builder.finishCall, Builder.finishCall]
  cases hr : takeValues (operands.take (operands.length - base)).reverse [] with
  | error failure =>
    obtain ⟨e, loose⟩ := failure
    obtain ⟨entry, hmem, hvalue, rfl⟩ := takeValues_error hr
    obtain ⟨-, named, htoken, hname⟩ := h.entries entry (List.mem_of_mem_take (List.mem_reverse.mp hmem))
    obtain rfl := hname hvalue
    rw [hr] at htaken
    simp only at htaken
    refine (h.recount hb (fun p => ?_) hentries h.pending).failing (hb.fault _ htoken (.notAValue entry.name))
    have htake := htaken p
    have hheld := hsplit p
    simp only [List.countP_append, List.countP_nil] at htake ⊢
    omega
  | ok arguments =>
    rw [hr] at htaken
    simp only at htaken
    have hkept : Kept c ((Pending.call callee base 0).receiver?.toList ++ arguments)
        (operands.drop (operands.length - base)) operators l s := by
      refine h.recount hb (fun p => ?_) hentries h.pending
      have htake := htaken p
      have hheld := hsplit p
      simp only [List.countP_append, List.countP_nil] at htake ⊢
      omega
    cases hmarked with
    | builtin f =>
      simp only
      split
      · exact hkept.calculateOn hb ht (.builtin f)
      · exact hkept.failing (hb.fault _ ht (.builtinArity f _))
    | method method receiver =>
      simp only
      split
      · exact hkept.calculateOn hb ht (.method method)
      · exact hkept.failing (hb.fault _ ht (.methodArity method _))

/-- A complaint about the arguments of a call. -/
theorem Kept.fails_slotFault (h : Kept c extra operands operators l s) (hb : b.Honours b' c) {symbol : Symbol}
    (ht : HasToken c.formula ⟨offset, .symbol symbol⟩) (hsymbol : symbol = .comma ∨ symbol = .closing)
    {base slot : Nat} {e : FormulaError} (he : slotFault? operands base slot offset = some e) : c.fails s e := by
  rcases slotFault?_cases he with ⟨extra, hmem, rfl⟩ | rfl
  · obtain ⟨-, lexeme, htoken, -⟩ := h.entries extra hmem
    exact hb.fault _ htoken (.missingComma lexeme)
  · exact hb.fault _ ht (.missingArgument hsymbol)

theorem Kept.closeBracket (h : Kept c [] operands operators l s) (hb : b.Honours b' c) (empty : Bool)
    (ht : HasToken c.formula ⟨offset, .symbol .closing⟩) :
    Ends c l (b.closeBracket empty offset operands operators) (b'.closeBracket empty offset operands operators) s
      fun (operands', operators') s' => Kept c [] operands' operators' l s' := by
  induction operators generalizing operands s with
  | nil => exact h.failing (hb.fault _ ht .unbalancedClosing)
  | cons entry operators ih =>
    obtain ⟨pending, place⟩ := entry
    have hpopped := h.popOperator hb
    have hpending := h.pending _ List.mem_cons_self
    cases pending with
    | paren =>
      rw [Builder.closeBracket, Builder.closeBracket]
      split
      · obtain ⟨lexeme, htoken, hmarked⟩ := hpending
        cases hmarked
        exact hpopped.failing (hb.fault _ htoken .emptyParentheses)
      · exact .pure hpopped
    | call callee base closed =>
      obtain ⟨lexeme, htoken, hmarked⟩ := hpending
      have hfinish : Ends c l (do return (← b.finishCall callee base place operands operators, operators))
          (do return (← b'.finishCall callee base place operands operators, operators)) s
          fun piles s' => Kept c [] piles.1 piles.2 l s' :=
        ((receiver?_call callee base closed base 0 ▸ hpopped).finishCall hb ⟨lexeme, htoken, hmarked.call⟩).bind
          fun operands' s' h' => .pure h'
      rw [Builder.closeBracket, Builder.closeBracket]
      cases empty with
      | true => exact hfinish
      | false =>
        cases hslot : slotFault? operands base closed offset with
        | some e =>
          simp only [Bool.not_false, if_true]
          exact hpopped.failing_bind (hpopped.fails_slotFault hb ht (.inr rfl) hslot) ..
        | none => exact hfinish
    | binary op =>
      rw [Builder.closeBracket, Builder.closeBracket]
      · exact (hpopped.reduce hb hpending).bind fun operands' s' h' => ih h'
      all_goals simp
    | unary op =>
      rw [Builder.closeBracket, Builder.closeBracket]
      · exact (hpopped.reduce hb hpending).bind fun operands' s' h' => ih h'
      all_goals simp

end

section

variable {c : Contract S α σ} {l : List α} {s : S} {piles : Stacks α σ} {b b' : Builder (StateM S) α σ}
  {scope : σ} {offset : Nat} {lexeme : Lexeme}

/-- The stacks hold what the reader holds. -/
abbrev Stacks.Kept (c : Contract S α σ) (piles : Stacks α σ) (l : List α) (s : S) : Prop :=
  FormulaGraph.Kept c [] piles.operands piles.operators l s

theorem keeps_literal (h : piles.Kept c l s) (hb : b.Honours b' c) (v : Value) :
    Ends c l (liftM (b.literal v) : Parsing (StateM S) α α) (liftM (b'.literal v)) s fun a s' =>
      FormulaGraph.Kept c [a] piles.operands piles.operators l s' :=
  .lift (by rw [hb.same.1]) ⟨hb.literal v h.holds, h.entries, h.pending⟩

theorem keeps_takeNumber {digits : String} (h : piles.Kept c l s) (hb : b.Honours b' c)
    (ht : HasToken c.formula ⟨offset, .number digits⟩) (after : List Token) :
    Ends c l (b.takeNumber piles offset digits after) (b'.takeNumber piles offset digits after) s
      fun (_, piles') s' => piles'.Kept c l s' := by
  rw [Builder.takeNumber, Builder.takeNumber]
  cases readNumber? digits.toList with
  | none => exact h.failing (hb.fault _ ht (.invalidNumber digits))
  | some x =>
    refine (keeps_literal h hb _).bind fun a s' ha => ?_
    cases suffixIn? after with
    | none => exact .pure (ha.push hb ht)
    | some suffix => exact (ha.calculateOn hb ht (.convert digits suffix)).bind fun operands s' h' => .pure h'

/-- What is found is held if it is a value, and open if it is a scope. -/
theorem keeps_resolve {r : σ} (h : piles.Kept c l s) (hb : b.Honours b' c) (hr : c.opens r) (name : String) :
    Ends c l (liftM (b.resolve r name) : Parsing (StateM S) α _) (liftM (b'.resolve r name)) s fun found s' =>
      FormulaGraph.Kept c (found.bind Found.value?).toList piles.operands piles.operators l s' ∧
        ∀ r', found = some (.scope r') → c.opens r' := by
  obtain ⟨hfound, hopen⟩ := hb.resolve name hr h.holds
  refine .lift (by rw [hb.same.2.1]) ⟨⟨?_, h.entries, h.pending⟩, hopen⟩
  rw [List.append_assoc]
  exact hfound

theorem Kept.pushFound {operands : Operands α σ} {operators : Operators α} {found : Found α σ} {name : String}
    (h : FormulaGraph.Kept c found.value?.toList operands operators l s) (hb : b.Honours b' c)
    (hopen : ∀ r, found = .scope r → c.opens r) (ht : HasToken c.formula ⟨offset, .name name⟩) :
    FormulaGraph.Kept c [] (⟨found, offset, name⟩ :: operands) operators l s := by
  refine h.recount hb (fun p => ?_) (fun e he => ?_) h.pending
  · simp only [countP_held_operand, List.countP_nil]
    omega
  · rcases List.mem_cons.mp he with rfl | he
    · exact ⟨hopen, _, ht, fun _ => rfl⟩
    · exact h.entries e he

theorem keeps_takeName {name : String} (h : piles.Kept c l s) (hb : b.Honours b' c) (hscope : c.opens scope)
    (ht : HasToken c.formula ⟨offset, .name name⟩) :
    Ends c l (b.takeName scope piles offset name) (b'.takeName scope piles offset name) s
      fun piles' s' => piles'.Kept c l s' := by
  have hpush : ∀ {s} v, piles.Kept c l s → Ends c l
      (do return piles.push (.value (← (b.literal v : StateM S α))) offset name)
      (do return piles.push (.value (← (b'.literal v : StateM S α))) offset name) s
      fun piles' s' => piles'.Kept c l s' := fun v h =>
    (keeps_literal h hb v).bind fun a s' ha => .pure (ha.push hb ht)
  rw [Builder.takeName, Builder.takeName]
  split
  · exact hpush _ h
  · split
    · exact hpush _ h
    · refine (keeps_resolve h hb hscope name).bind fun found s' ⟨h', hopen⟩ => ?_
      cases found with
      | some found => exact .pure (h'.pushFound hb (fun r hr => hopen r (congrArg some hr)) ht)
      | none =>
        cases namedConstant? name with
        | some v => exact hpush _ h'
        | none => exact h'.failing (hb.fault _ ht (.unknownIdentifier name))

/-- The operator that waits is blamed, or else the token that has come. -/
theorem keeps_failMissing {otherwise : ParseFault} (h : piles.Kept c l s) (hb : b.Honours b' c)
    (ht : HasToken c.formula ⟨offset, lexeme⟩) (hblames : otherwise.Blames lexeme) {Q : β → S → Prop} :
    Ends c l (piles.failMissing otherwise offset : Parsing (StateM S) α β) (piles.failMissing otherwise offset) s
      Q := by
  rw [Stacks.failMissing]
  split
  next pending place operators hs =>
    split
    next symbol hsymbol =>
      obtain ⟨marking, htoken, hmarked⟩ := h.pending (pending, place) (hs ▸ List.mem_cons_self)
      exact h.failing (hb.fault _ htoken (hmarked.missingOperand hsymbol))
    next => exact h.failing (hb.fault _ ht hblames)
  next => exact h.failing (hb.fault _ ht hblames)

/-- What is left above the call that a comma stands in has to be one argument more. -/
def endArgument (offset : Nat) : Operands α σ × Operators α → Parsing (StateM S) α (Stacks α σ)
  | (operands, operators) =>
    match operators with
    | (.call callee base closed, place) :: below =>
      let operators := (.call callee base (closed + 1), place) :: below
      match slotFault? operands base closed offset with
      | some e => failing operands operators e []
      | none => return ⟨operands, operators, true⟩
    | _ => failing operands operators (ParseFault.commaOutsideCall.at offset) []

theorem keeps_endArgument {operands : Operands α σ} {operators : Operators α}
    (h : FormulaGraph.Kept c [] operands operators l s) (hb : b.Honours b' c)
    (ht : HasToken c.formula ⟨offset, .symbol .comma⟩) :
    Ends c l (endArgument offset (operands, operators)) (endArgument offset (operands, operators)) s
      fun piles' s' => piles'.Kept c l s' := by
  unfold endArgument
  dsimp only
  split
  next callee base closed place below =>
    have hcall : FormulaGraph.Kept c [] operands ((.call callee base (closed + 1), place) :: below) l s := by
      refine h.recount hb (fun p => ?_) h.entries fun p hp => ?_
      · rw [countP_held_operator, countP_held_operator, receiver?_call callee base closed]
      · rcases List.mem_cons.mp hp with rfl | hp
        · obtain ⟨lexeme, htoken, hmarked⟩ := h.pending _ List.mem_cons_self
          exact ⟨lexeme, htoken, hmarked.call⟩
        · exact h.pending p (List.mem_cons_of_mem _ hp)
    split
    next e he => exact hcall.failing (hcall.fails_slotFault hb ht (.inl rfl) he)
    next => exact .pure hcall
  · exact h.failing (hb.fault _ ht .commaOutsideCall)

theorem keeps_takeComma (h : piles.Kept c l s) (hb : b.Honours b' c)
    (ht : HasToken c.formula ⟨offset, .symbol .comma⟩) :
    Ends c l (b.takeComma piles offset) (b'.takeComma piles offset) s fun piles' s' => piles'.Kept c l s' := by
  rw [Builder.takeComma, Builder.takeComma]
  split
  · exact Ends.bind (P := fun _ _ => False) (keeps_failMissing h hb ht .missingArgumentBefore)
      fun _ _ hf => hf.elim
  · exact (Kept.reduceWhile h hb _).bind fun reduced s' hreduced => keeps_endArgument hreduced.1 hb ht

theorem keeps_takeClosing (h : piles.Kept c l s) (hb : b.Honours b' c)
    (ht : HasToken c.formula ⟨offset, .symbol .closing⟩) :
    Ends c l (b.takeClosing piles offset) (b'.takeClosing piles offset) s fun piles' s' => piles'.Kept c l s' := by
  have hclose : Ends c l
      (do
        let (operands, operators) ← b.closeBracket piles.expectOperand offset piles.operands piles.operators
        return ⟨operands, operators, false⟩ : Parsing (StateM S) α (Stacks α σ))
      (do
        let (operands, operators) ← b'.closeBracket piles.expectOperand offset piles.operands piles.operators
        return ⟨operands, operators, false⟩) s
      fun piles' s' => piles'.Kept c l s' :=
    (Kept.closeBracket h hb piles.expectOperand ht).bind fun (operands, operators) s' h' => .pure h'
  rw [Builder.takeClosing, Builder.takeClosing]
  split
  · split
    · split
      · exact h.failing_bind (hb.fault _ ht .missingArgumentAfter) ..
      · exact hclose
    · exact hclose
    · exact Ends.bind (P := fun _ _ => False) (keeps_failMissing h hb ht .unbalancedClosing) fun _ _ hf => hf.elim
  · exact hclose

theorem keeps_openCall {callee : Callee α} {operands : Operands α σ} {operators : Operators α}
    (h : FormulaGraph.Kept c (Pending.call callee 0 0).receiver?.toList operands operators l s)
    (hb : b.Honours b' c) (expectOperand : Bool) (hpending : c.Awaits (.call callee 0 0) offset) :
    (Stacks.openCall ⟨operands, operators, expectOperand⟩ callee offset).Kept c l s := by
  refine h.recount hb (fun p => ?_) h.entries fun p hp => ?_
  · rw [Stacks.openCall, countP_held_operator, receiver?_call callee _ _ 0 0]
    simp
  · rcases List.mem_cons.mp hp with rfl | hp
    · obtain ⟨lexeme, ht, hmarked⟩ := hpending
      exact ⟨lexeme, ht, hmarked.call⟩
    · exact h.pending p hp

/-- The operand is still held, and it is known what it is. -/
theorem keeps_kind {a : α} {operands : Operands α σ} {operators : Operators α}
    (h : FormulaGraph.Kept c [a] operands operators l s) (hb : b.Honours b' c) :
    Ends c l (liftM (b.kind a) : Parsing (StateM S) α _) (liftM (b'.kind a)) s fun kind s' =>
      FormulaGraph.Kept c [a] operands operators l s' ∧ ∀ e, kind = .error e → c.fails s' e := by
  obtain ⟨hsame, hholds, hfails⟩ := hb.kind List.mem_cons_self h.holds
  exact .lift hsame ⟨⟨hholds, h.entries, h.pending⟩, hfails⟩

theorem keeps_takeMember {dot : Nat} {after : List Token} (h : piles.Kept c l s) (hb : b.Honours b' c)
    (ht : HasToken c.formula ⟨dot, .symbol .dot⟩) (hafter : ∀ t ∈ after, HasToken c.formula t) :
    Ends c l (b.takeMember piles dot after) (b'.takeMember piles dot after) s fun (_, piles') s' =>
      piles'.Kept c l s' := by
  unfold Builder.takeMember
  split
  next offset name after =>
    have hname := hafter _ List.mem_cons_self
    split
    next receiver operands hs =>
      dsimp only
      split
      · exact h.failing_bind (hb.fault _ ht (.unexpected .dot)) ..
      next he =>
        have hpopped : FormulaGraph.Kept c receiver.operand.value?.toList operands piles.operators l s := by
          refine h.recount hb (fun p => ?_) (fun e he => h.entries e ?_) h.pending
          · rw [hs, countP_held_operand]
            simp
          · rw [hs]
            exact List.mem_cons_of_mem _ he
        have hopen := (h.entries receiver (by rw [hs]; exact List.mem_cons_self)).opens
        cases ho : receiver.operand with
        | value a =>
          rw [ho] at hpopped
          refine (keeps_kind hpopped hb).bind fun kind s' hdone => ?_
          obtain ⟨h', hkind⟩ := hdone
          cases kind with
          | error e => exact h'.failing (hkind e rfl)
          | ok kind =>
            dsimp only
            split
            · split
              next method hmethod =>
                obtain rfl := Kind.name_of_method? hmethod
                exact .pure (keeps_openCall h' hb _ ⟨_, hname, .method method a 0 0⟩)
              next => exact h'.failing (hb.member _ hname)
            · split
              next field hfield =>
                obtain rfl := Kind.name_of_field? hfield
                exact (h'.calculateOn hb hname (.field field)).bind fun operands s'' h'' => .pure h''
              next => exact h'.failing (hb.member _ hname)
        | scope inner =>
          rw [ho] at hpopped
          have hstacks : Stacks.Kept c { piles with operands } l s := hpopped
          dsimp only
          split
          · exact hstacks.failing_bind (hb.member _ hname) ..
          · refine (keeps_resolve hstacks hb (hopen inner ho) name).bind fun found s' hdone => ?_
            obtain ⟨h', hfound⟩ := hdone
            cases found with
            | some found => exact .pure (h'.pushFound hb (fun r hr => hfound r (congrArg some hr)) hname)
            | none => exact h'.failing (hb.member _ hname)
        | list =>
          rw [ho] at hpopped
          exact hpopped.failing (hb.member _ hname)
    · dsimp only
      split
      · exact h.failing_bind (hb.fault _ ht (.unexpected .dot)) ..
      · exact h.failing (hb.fault _ ht (.unexpected .dot))
  · exact h.failing (hb.fault _ ht .memberName)

theorem keeps_pushOperator {pending : Pending α} (h : piles.Kept c l s) (hb : b.Honours b' c)
    (hp : pending.receiver? = none) (hpending : c.Awaits pending offset) :
    (piles.pushOperator pending offset).Kept c l s := by
  refine h.recount hb (fun p => ?_) h.entries fun p hp => ?_
  · rw [Stacks.pushOperator, countP_held_operator, hp]
    simp
  · rcases List.mem_cons.mp hp with rfl | hp
    · exact hpending
    · exact h.pending p hp

theorem keeps_takeBinary {op : BinaryOp} (h : piles.Kept c l s) (hb : b.Honours b' c)
    (ht : HasToken c.formula ⟨offset, .symbol (.binary op)⟩) :
    Ends c l (b.takeBinary piles offset op) (b'.takeBinary piles offset op) s fun piles' s' =>
      piles'.Kept c l s' := by
  rw [Builder.takeBinary, Builder.takeBinary]
  split
  · split
    next hop =>
      subst hop
      exact .pure (keeps_pushOperator h hb rfl ⟨_, ht, .neg⟩)
    next => exact h.failing_bind (hb.fault _ ht (.missingOperand (.binary op))) ..
  · refine (Kept.reduceWhile h hb _).bind fun reduced s' hreduced => .pure ?_
    show (Stacks.pushOperator ⟨reduced.1, reduced.2, false⟩ (.binary op) offset).Kept c l s'
    exact keeps_pushOperator hreduced.1 hb rfl ⟨_, ht, .binary op⟩

theorem keeps_takeSymbol {symbol : Symbol} {after : List Token} (h : piles.Kept c l s) (hb : b.Honours b' c)
    (ht : HasToken c.formula ⟨offset, .symbol symbol⟩) (hafter : ∀ t ∈ after, HasToken c.formula t) :
    Ends c l (b.takeSymbol piles offset symbol after) (b'.takeSymbol piles offset symbol after) s
      fun (_, piles') s' => piles'.Kept c l s' := by
  cases symbol with
  | opening => exact .pure (keeps_pushOperator h hb rfl ⟨_, ht, .paren⟩)
  | closing => exact (keeps_takeClosing h hb ht).bind fun piles' s' h' => .pure h'
  | comma => exact (keeps_takeComma h hb ht).bind fun piles' s' h' => .pure h'
  | dot => exact keeps_takeMember h hb ht hafter
  | not =>
    rw [Builder.takeSymbol, Builder.takeSymbol]
    split
    · exact .pure (keeps_pushOperator h hb rfl ⟨_, ht, .not⟩)
    · exact h.failing (hb.fault _ ht (.unexpected .not))
  | binary op => exact (keeps_takeBinary h hb ht).bind fun piles' s' h' => .pure h'

theorem keeps_takeToken {token : Token} {after : List Token} (h : piles.Kept c l s) (hb : b.Honours b' c)
    (hscope : c.opens scope) (ht : HasToken c.formula token) (hafter : ∀ t ∈ after, HasToken c.formula t) :
    Ends c l (b.takeToken scope piles token after) (b'.takeToken scope piles token after) s
      fun (_, piles') s' => piles'.Kept c l s' := by
  obtain ⟨offset, lexeme⟩ := token
  cases lexeme with
  | number digits => exact keeps_takeNumber h hb ht after
  | text contents => exact (keeps_literal h hb _).bind fun a s' ha => .pure (ha.push hb ht)
  | name name =>
    rw [Builder.takeToken, Builder.takeToken]
    dsimp only
    split
    · split
      next f hf =>
        obtain rfl := Builtin.name_of_ofName? hf
        exact .pure (keeps_openCall h hb _ ⟨_, ht, .builtin f 0 0⟩)
      next => exact h.failing (hb.fault _ ht (.unknownFunction name))
    · exact (keeps_takeName h hb hscope ht).bind fun piles' s' h' => .pure h'
  | symbol symbol => exact keeps_takeSymbol h hb ht hafter

theorem keeps_reduceAll (h : piles.Kept c l s) (hb : b.Honours b' c) :
    Ends c l (b.reduceAll piles) (b'.reduceAll piles) s fun operands s' =>
      FormulaGraph.Kept c [] operands [] l s' := by
  refine (Kept.reduceWhile h hb _).bind fun (operands, operators) s' ⟨h', htop⟩ => ?_
  cases operators with
  | nil => exact .pure h'
  | cons entry operators =>
    obtain ⟨lexeme, ht, hmarked⟩ := h'.pending _ List.mem_cons_self
    exact h'.failing (hb.fault _ ht (hmarked.unbalanced (by simpa using htop entry rfl)))

theorem keeps_onlyOperand {operands : Operands α σ} (h : FormulaGraph.Kept c [] operands [] l s) (hb : b.Honours b' c)
    (hempty : operands = [] → tokenize c.formula = .ok []) :
    Ends c l (onlyOperand operands : Parsing (StateM S) α α) (onlyOperand operands) s
      fun a s' => c.holds (a :: l) s' := by
  have hheld : ∀ p, (held operands ([] : Operators α)).countP p =
      (operands.filterMap (·.operand.value?)).countP p := fun p => by
    rw [countP_held]
    simp
  have hnone : operands.filterMap (·.operand.value?) = [] → c.holds ([] ++ l) s := fun hnil =>
    hb.recount (fun p => by rw [List.nil_append, List.countP_append, List.countP_append, hheld, hnil]; simp) h.holds
  unfold onlyOperand
  cases hr : operands.reverse with
  | nil =>
    have hnil := List.reverse_eq_nil_iff.mp hr
    exact ⟨rfl, hnone (by rw [hnil]; rfl), hb.nothing _ (hempty hnil)⟩
  | cons first rest =>
    cases rest with
    | nil =>
      have hone : operands = [first] := by
        rw [← List.reverse_reverse operands, hr]
        rfl
      dsimp only
      split
      next a ha =>
        refine .pure (hb.recount (fun p => ?_) h.holds)
        rw [List.countP_append, List.countP_append, hheld, hone, List.filterMap_cons, ha]
        simp only [Found.value?, List.countP_cons, List.countP_nil, List.filterMap_nil]
        omega
      next hvalue =>
        obtain ⟨-, lexeme, ht, hname⟩ := h.entries first (by rw [hone]; exact List.mem_cons_self)
        have hnot : first.operand.value? = none := by
          cases ho : first.operand with
          | value a => exact (hvalue a ho).elim
          | scope | list => rfl
        obtain rfl := hname hnot
        refine ⟨rfl, hnone ?_, hb.fault _ ht (.notAValue first.name)⟩
        rw [hone, List.filterMap_cons, hnot]
        rfl
    | cons second entries =>
      have hoperands : (first :: second :: entries).reverse = operands := by
        rw [← hr, List.reverse_reverse]
      obtain ⟨-, lexeme, ht, -⟩ := h.entries second
        (List.mem_reverse.mp (by rw [hr]; exact List.mem_cons_of_mem _ List.mem_cons_self))
      dsimp only
      rw [hoperands]
      exact h.failing (hb.fault _ ht (.severalValues lexeme))

theorem keeps_finish {ts : List Token} (h : piles.Kept c l s) (hb : b.Honours b' c) (hspelled : piles.Spelled ts)
    (hts : tokenize c.formula = .ok ts) :
    Ends c l (b.finish piles) (b'.finish piles) s fun a s' => c.holds (a :: l) s' := by
  rw [Builder.finish_eq, Builder.finish_eq]
  cases hfinished : piles.unfinished? with
  | some missing =>
    obtain ⟨pending, symbol, place⟩ := missing
    obtain ⟨hmem, hsymbol⟩ := Stacks.mem_of_unfinished? hfinished
    obtain ⟨lexeme, ht, hmarked⟩ := h.pending _ hmem
    exact h.failing (hb.fault _ ht (hmarked.missingOperand hsymbol))
  | none =>
    refine ((keeps_reduceAll h hb).returns (hspelled.reduceAll hfinished)).bind fun operands s' ⟨h', _, hempty⟩ => ?_
    exact keeps_onlyOperand h' hb fun hnil => by rw [hts, hempty hnil]

theorem keeps_takeAll {ts : List Token} (tokens : List Token) (h : piles.Kept c l s) (hb : b.Honours b' c)
    (hscope : c.opens scope) (hspelled : piles.Spelled ts) (hts : tokenize c.formula = .ok (ts ++ tokens)) :
    Ends c l (b.takeAll scope piles tokens) (b'.takeAll scope piles tokens) s fun a s' => c.holds (a :: l) s' := by
  fun_induction Builder.takeAll b scope piles tokens generalizing s ts with
  | case1 =>
    rw [Builder.takeAll]
    rw [List.append_nil] at hts
    exact keeps_finish h hb hspelled hts
  | case2 piles token after ih =>
    rw [Builder.takeAll]
    have htokens : ∀ t ∈ token :: after, HasToken c.formula t := fun t ht =>
      ⟨ts ++ token :: after, hts, List.mem_append_right ts ht⟩
    refine ((keeps_takeToken h hb hscope (htokens token List.mem_cons_self) fun t ht =>
      htokens t (List.mem_cons_of_mem token ht)).returns (hspelled.takeToken scope token after)).bind
        fun result s' hdone => ?_
    obtain ⟨count, piles'⟩ := result
    obtain ⟨h', hspelled'⟩ := hdone
    refine ih count piles' h' hspelled' ?_
    rwa [List.append_assoc, List.cons_append, List.take_append_drop]

/-- A formula that is built is held, and one that is not leaves nothing held. Its failure is one that may come
up, with the formula attached. The other builder brings about the same. -/
theorem Builder.Honours.parse (hb : b.Honours b' c) (hscope : c.opens scope)
    (hlex : ∀ e, tokenize c.formula = .error e → c.fails s e) (h : c.holds l s) :
    (b'.parse scope c.formula).run s = (b.parse scope c.formula).run s ∧
      match (b.parse scope c.formula).run s with
      | (.ok a, s') => c.holds (a :: l) s'
      | (.error e, s') => c.holds l s' ∧ ∃ raw, c.fails s' raw ∧ e = raw.attach c.formula := by
  have hkept : Stacks.Kept c {} l s := ⟨h, nofun, nofun⟩
  rw [Builder.parse, Builder.parse]
  cases htokens : tokenize c.formula with
  | error e => exact ⟨rfl, h, e, hlex e htokens, rfl⟩
  | ok tokens =>
    obtain ⟨hsame, htaken⟩ := keeps_takeAll tokens hkept hb hscope Stacks.spelled_start htokens
    dsimp only
    rw [StateT.run_bind, StateT.run_bind, hsame]
    rcases hr : (b.takeAll scope {} tokens).run.run s with ⟨r, s'⟩
    rw [hr] at htaken
    cases r with
    | ok a => exact ⟨rfl, htaken⟩
    | error failure =>
      obtain ⟨hholds, hfails⟩ := hb.discard htaken.1
      refine ⟨?_, hholds, failure.error, hfails _ htaken.2, rfl⟩
      show _ = (b.discard failure.loose >>= _).run s'
      rw [← hb.same.2.2]
      rfl

theorem Builder.Keeps.parse {I : List α → S → Prop} {Open : σ → Prop} (hb : b.Keeps I Open) (hscope : Open scope)
    (formula : String) (h : I l s) :
    match (b.parse scope formula).run s with
    | (.ok a, s') => I (a :: l) s'
    | (.error _, s') => I l s' := by
  obtain ⟨-, hparse⟩ := (hb.honours formula).parse hscope (fun _ _ => trivial) h
  dsimp only at hparse
  generalize (b.parse scope formula).run s = parsed at hparse ⊢
  obtain ⟨e | a, s'⟩ := parsed
  · exact hparse.1
  · exact hparse

end

end FormulaGraph
