import FormulaGraph.Proofs.Standing

/-! Nothing is read but what is spelled. Every token read adds to what the stacks stand for, and a reader that
comes to an end has read a tree. -/

namespace FormulaGraph

variable {m : Type → Type} [Monad m] [LawfulMonad m] {α σ : Type}

section

variable {operands : Operands α σ} {operators : Operators α} {b : Builder m α σ} {t : Nat}
  {ts us : List Token} {e : Expr} {s : Stacks α σ}

theorem Suffix.symbol_of_ofSymbol? {name : String} {suffix : Suffix} (h : ofSymbol? name = some suffix) :
    suffix.symbol = name := by
  unfold ofSymbol? at h
  split at h
  next hdegrees =>
    cases h
    exact hdegrees.symm
  next =>
    split at h
    next hradians =>
      cases h
      exact hradians.symm
    next =>
      obtain ⟨unit, hunit, rfl⟩ := Option.map_eq_some_iff.mp h
      have hsymbol := List.find?_some hunit
      exact beq_iff_eq.mp hsymbol

theorem Stacks.Spelled.takeNumber (h : s.Spelled ts) (offset : Nat) (digits : String) (after : List Token) :
    Returns (b.takeNumber s offset digits after) fun (count, s') =>
      s'.Spelled (ts ++ ⟨offset, .number digits⟩ :: after.take count) := by
  unfold Builder.takeNumber
  split
  · refine (Returns.trivial _).bind fun literal _ => ?_
    cases hsuffix : suffixIn? after with
    | none =>
      exact .pure ((h.push (fun k => .number (k := k) digits none offset 0) rfl).spelled rfl)
    | some suffix =>
      refine (returns_calculateOn ..).bind fun operands' hlength => .pure ?_
      unfold suffixIn? at hsuffix
      split at hsuffix
      next place name after =>
        have hname := Suffix.symbol_of_ofSymbol? hsuffix
        have hspells : ∀ k, Spells k (.number digits (some suffix) offset)
            (⟨offset, .number digits⟩ :: suffixTokens (some suffix) place) :=
          fun k => .number digits (some suffix) offset place
        rw [suffixTokens, Option.toList_some, List.map_singleton, hname] at hspells
        exact (h.push hspells hlength).spelled rfl
      · cases hsuffix
  · exact .throw _

theorem Stacks.Spelled.takeName (h : s.Spelled ts) (scope : σ) (offset : Nat) (name : String) :
    Returns (b.takeName scope s offset name) fun s' => s'.Spelled (ts ++ [⟨offset, .name name⟩]) := by
  have hpush : ∀ found : Found α σ, (s.push found offset name).Spelled (ts ++ [⟨offset, .name name⟩]) :=
    fun found => (h.push (fun k => .name (k := k) name offset) rfl).spelled rfl
  unfold Builder.takeName
  split
  · exact (Returns.trivial _).bind fun _ _ => .pure (hpush _)
  · split
    · exact (Returns.trivial _).bind fun _ _ => .pure (hpush _)
    · refine (Returns.trivial _).bind fun found _ => ?_
      cases found with
      | some found => exact .pure (hpush found)
      | none =>
        dsimp only
        split
        · exact (Returns.trivial _).bind fun _ _ => .pure (hpush _)
        · exact .throw _

theorem Stacks.Spelled.takeComma (h : s.Spelled ts) (comma : Nat) :
    Returns (b.takeComma s comma) fun s' => s'.Spelled (ts ++ [⟨comma, .symbol .comma⟩]) := by
  unfold Stacks.Spelled at h
  rw [Builder.takeComma]
  split at h
  next hexpect =>
    rw [if_pos hexpect]
    exact (returns_failMissing (Q := fun _ => False) ..).bind fun _ hf => hf.elim
  next hexpect =>
    rw [if_neg hexpect]
    refine ((h.mono (Nat.zero_le 8)).reduceWhile fun _ _ => Nat.zero_le _).bind
      fun (operands, operators) ⟨h', _⟩ => ?_
    cases operators with
    | nil => exact returns_failing ..
    | cons entry below =>
      obtain ⟨pending, place⟩ := entry
      cases pending with
      | call callee base closed =>
        dsimp only
        cases hslot : slotFault? operands base closed comma with
        | some e => exact returns_failing ..
        | none => exact .pure (h'.endArgument rfl (length_of_slotFault? hslot) comma)
      | binary | unary | paren => exact returns_failing ..

theorem Stacks.Spelled.takeClosing (h : s.Spelled ts) (closing : Nat) :
    Returns (b.takeClosing s closing) fun s' => s'.Spelled (ts ++ [⟨closing, .symbol .closing⟩]) := by
  unfold Stacks.Spelled at h
  rw [Builder.takeClosing]
  split at h
  next hexpect =>
    rw [if_pos hexpect, hexpect]
    split
    next callee base closed place below heq =>
      rw [heq] at h
      by_cases hclosed : 0 < closed
      · rw [if_pos hclosed]
        exact returns_failing_bind ..
      · have hfinish : Returns (b.closeBracket true closing s.operands
            ((.call callee base closed, place) :: below)) fun piles =>
              Stands 8 piles.1 piles.2 (ts ++ [⟨closing, .symbol .closing⟩]) := by
          refine (returns_finishCall (b := b) ..).bind fun operands' hlength => .pure ?_
          have hfits : s.operands.length = base + closed := h.1
          have hbase : operands'.length = base + 1 := by omega
          exact h.endCall (Nat.eq_zero_of_not_pos hclosed) hbase closing
        rw [if_neg hclosed, heq]
        exact hfinish.bind fun piles h' => .pure h'
    next place below heq =>
      rw [heq]
      exact returns_failing_bind ..
    · exact (returns_failMissing (Q := fun _ => False) ..).bind fun _ hf => hf.elim
  next hexpect =>
    rw [if_neg hexpect, Bool.eq_false_iff.mpr hexpect]
    exact ((h.mono (Nat.zero_le 8)).closeBracket closing).bind fun piles h' => .pure h'

theorem Stands.field {x : Entry α σ} {operands' : Operands α σ}
    (h : Stands 8 (x :: operands) operators ts) (hlength : operands'.length = operands.length + 1)
    (name : String) (dot offset : Nat) :
    Stands 8 operands' operators (ts ++ [⟨dot, .symbol .dot⟩, ⟨offset, .name name⟩]) := by
  obtain ⟨n, hn, hover | ⟨k, e, us, vs, hawaits, hk, he, rfl⟩⟩ := h
  · exact ⟨n, hlength.trans hn, .inl hover⟩
  · refine ⟨n, hlength.trans hn, .inr ⟨k, _, us, _, hawaits, .field name dot offset he,
      .field name dot offset he, ?_⟩⟩
    rw [List.append_assoc]

theorem Stands.openMethod {x : Entry α σ} (h : Stands 8 (x :: operands) operators ts) (f : Method) (a : α)
    (name : String) (dot offset opening : Nat) :
    Waits operands.length ((.call (.method f a) operands.length 0, offset) :: operators)
      (ts ++ [⟨dot, .symbol .dot⟩, ⟨offset, .name name⟩, ⟨opening, .symbol .opening⟩]) := by
  refine ⟨rfl, ?_⟩
  obtain ⟨n, hn, hover | ⟨k, e, us, vs, hawaits, hk, he, rfl⟩⟩ := h
  · exact .inl (.inr ⟨rfl, Nat.succ.inj hn ▸ hover⟩)
  · rw [Nat.succ.inj hn, List.append_assoc]
    exact .inr ⟨0, .method name dot offset opening hawaits he .nil⟩

theorem Stacks.Spelled.openCall (h : s.Spelled ts) (f : Builtin) (name : String) (offset opening : Nat) :
    (s.openCall (.builtin f) offset).Spelled
      (ts ++ [⟨offset, .name name⟩, ⟨opening, .symbol .opening⟩]) := by
  refine ⟨rfl, ?_⟩
  rcases h.over_or with hover | ⟨k, hawaits⟩
  · exact .inl (.inr ⟨rfl, hover⟩)
  · exact .inr ⟨0, .builtin name offset opening hawaits .nil⟩

theorem eq_cons_of_opensCall {after : List Token} (h : opensCall after = true) :
    ∃ opening rest, after = ⟨opening, .symbol .opening⟩ :: rest := by
  unfold FormulaGraph.opensCall at h
  split at h
  next opening rest => exact ⟨opening, rest, rfl⟩
  · cases h

theorem Stands.takeMember (h : Stands 8 s.operands s.operators ts) (hexpect : s.expectOperand = false)
    (dot offset : Nat) (name : String) (after : List Token) :
    Returns (b.takeMember s dot (⟨offset, .name name⟩ :: after)) fun (count, s') =>
      s'.Spelled (ts ++ ⟨dot, .symbol .dot⟩ :: List.take count (⟨offset, .name name⟩ :: after)) := by
  obtain ⟨operands, operators, expect⟩ := s
  dsimp only at h hexpect
  subst hexpect
  rw [Builder.takeMember]
  cases operands with
  | nil => exact returns_failing ..
  | cons x operands =>
    have hfield : ∀ operands' : Operands α σ, operands'.length = operands.length + 1 →
        Stacks.Spelled ⟨operands', operators, false⟩
          (ts ++ [⟨dot, .symbol .dot⟩, ⟨offset, .name name⟩]) :=
      fun operands' hlength => (h.field hlength name dot offset).spelled rfl
    simp only [Bool.false_eq_true, if_false]
    cases x.operand with
    | value a =>
      refine (Returns.trivial _).bind fun kind _ => ?_
      cases kind with
      | error e => exact returns_failing ..
      | ok kind =>
        dsimp only
        by_cases hopens : opensCall after = true
        · obtain ⟨opening, rest, rfl⟩ := eq_cons_of_opensCall hopens
          rw [if_pos hopens]
          cases kind.method? name with
          | none => exact returns_failing ..
          | some f => exact .pure (h.openMethod f a name dot offset opening)
        · rw [if_neg hopens]
          cases kind.field? name with
          | none => exact returns_failing ..
          | some f =>
            refine (returns_calculateOn ..).bind fun operands' hlength => .pure ?_
            exact hfield operands' hlength
    | scope inner =>
      dsimp only
      by_cases hopens : opensCall after = true
      · rw [if_pos hopens]
        exact returns_failing_bind ..
      · rw [if_neg hopens]
        refine (Returns.trivial _).bind fun found _ => ?_
        cases found with
        | none => exact returns_failing ..
        | some found => exact .pure (hfield _ rfl)
    | list => exact returns_failing ..

theorem Stacks.Spelled.takeMember (h : s.Spelled ts) (dot : Nat) (after : List Token) :
    Returns (b.takeMember s dot after) fun (count, s') =>
      s'.Spelled (ts ++ ⟨dot, .symbol .dot⟩ :: after.take count) := by
  unfold Stacks.Spelled at h
  split at h
  next hexpect =>
    unfold Builder.takeMember
    split
    · rw [if_pos hexpect]
      exact returns_failing_bind ..
    · exact returns_failing ..
  next hexpect =>
    cases after with
    | nil => exact returns_failing ..
    | cons token after =>
      obtain ⟨offset, lexeme⟩ := token
      cases lexeme with
      | name name => exact h.takeMember (Bool.eq_false_iff.mpr hexpect) dot offset name after
      | number | text | symbol => exact returns_failing ..

theorem Stacks.Spelled.openParen (h : s.Spelled ts) (offset : Nat) :
    (s.pushOperator .paren offset).Spelled (ts ++ [⟨offset, .symbol .opening⟩]) := by
  refine ⟨trivial, ?_⟩
  rcases h.over_or with hover | ⟨k, hawaits⟩
  · exact .inl hover
  · exact .inr ⟨0, .paren offset hawaits⟩

theorem Awaits.level_le_seven {n k : Nat} (h : Awaits operators n k ts) : k ≤ 7 := by
  cases h with
  | binary op offset h hk hl => cases op <;> decide
  | start | unary | paren | builtin | method => omega

theorem Waits.pushUnary (h : Waits s.operands.length s.operators ts) (op : UnaryOp) (offset : Nat) :
    (s.pushOperator (.unary op) offset).Spelled (ts ++ [⟨offset, .symbol op.mark⟩]) := by
  refine ⟨trivial, ?_⟩
  rcases h.2 with hover | ⟨k, hawaits⟩
  · exact .inl hover
  · exact .inr ⟨7, .unary op offset hawaits hawaits.level_le_seven⟩

theorem BinaryOp.level_bounds (op : BinaryOp) : 0 < op.level ∧ op.level < 7 := by cases op <;> decide

theorem Stacks.Spelled.takeBinary (h : s.Spelled ts) (offset : Nat) (op : BinaryOp) :
    Returns (b.takeBinary s offset op) fun s' => s'.Spelled (ts ++ [⟨offset, .symbol (.binary op)⟩]) := by
  unfold Stacks.Spelled at h
  rw [Builder.takeBinary]
  split at h
  next hexpect =>
    rw [if_pos hexpect]
    by_cases hsub : op = .sub
    · subst hsub
      rw [if_pos rfl]
      exact .pure (h.pushUnary .neg offset)
    · rw [if_neg hsub]
      exact returns_failing_bind ..
  next hexpect =>
    obtain ⟨hpos, hlt⟩ := op.level_bounds
    rw [if_neg hexpect]
    refine ((h.mono (by omega : op.level ≤ 8)).reduceWhile fun p hp => of_decide_eq_true hp).bind
      fun (operands, operators) ⟨⟨n, hn, h'⟩, hhead⟩ => .pure ⟨trivial, ?_⟩
    dsimp only
    rw [hn]
    rcases h' with hover | ⟨k, e, us, vs, hawaits, hk, he, rfl⟩
    · exact .inl ⟨Nat.succ_pos n, hover⟩
    · rw [List.append_assoc]
      refine .inr ⟨op.level + 1, .binary op offset hawaits (hawaits.level_le hlt fun p hp => ?_) he⟩
      have hyield := of_decide_eq_false (hhead p hp)
      omega

theorem Stacks.Spelled.takeSymbol (h : s.Spelled ts) (offset : Nat) (symbol : Symbol) (after : List Token) :
    Returns (b.takeSymbol s offset symbol after) fun (count, s') =>
      s'.Spelled (ts ++ ⟨offset, .symbol symbol⟩ :: after.take count) := by
  cases symbol with
  | opening => exact .pure (h.openParen offset)
  | closing => exact (h.takeClosing offset).bind fun s' h' => .pure h'
  | comma => exact (h.takeComma offset).bind fun s' h' => .pure h'
  | dot => exact h.takeMember offset after
  | not =>
    rw [Builder.takeSymbol]
    split
    next hexpect =>
      unfold Stacks.Spelled at h
      rw [if_pos hexpect] at h
      exact .pure (h.pushUnary .not offset)
    · exact returns_failing ..
  | binary op => exact (h.takeBinary offset op).bind fun s' h' => .pure h'

theorem Stacks.Spelled.takeToken (h : s.Spelled ts) (scope : σ) (token : Token) (after : List Token) :
    Returns (b.takeToken scope s token after) fun (count, s') =>
      s'.Spelled (ts ++ token :: after.take count) := by
  obtain ⟨offset, lexeme⟩ := token
  cases lexeme with
  | number digits => exact h.takeNumber offset digits after
  | text contents =>
    refine (Returns.trivial _).bind fun literal _ => .pure ?_
    exact (h.push (fun k => .text (k := k) contents offset) rfl).spelled rfl
  | name name =>
    rw [Builder.takeToken]
    dsimp only
    by_cases hopens : opensCall after = true
    · obtain ⟨opening, rest, rfl⟩ := eq_cons_of_opensCall hopens
      rw [if_pos hopens]
      cases Builtin.ofName? name with
      | some f => exact .pure (h.openCall f name offset opening)
      | none => exact returns_failing ..
    · rw [if_neg hopens]
      exact (h.takeName scope offset name).bind fun s' h' => .pure h'
  | symbol symbol => exact h.takeSymbol offset symbol after

theorem Stands.reduceAll {expect : Bool} (h : Stands 0 operands operators ts) :
    Returns (b.reduceAll ⟨operands, operators, expect⟩) fun operands' => Stands 0 operands' [] ts := by
  refine (h.reduceWhile fun _ _ => Nat.zero_le _).bind fun (operands, operators) ⟨h', _⟩ => ?_
  cases operators with
  | nil => exact .pure h'
  | cons entry operators => exact returns_failing ..

/-- Something is left at the end only if one operand is. -/
theorem Stands.spells {x : Entry α σ} (h : Stands 0 [x] ([] : Operators α) ts) : ∃ e, Spells 0 e ts := by
  obtain ⟨n, hn, hover | ⟨k, e, us, vs, hawaits, hk, he, rfl⟩⟩ := h
  · have hone : 0 < n := hover
    rw [List.length_singleton] at hn
    omega
  · cases hawaits with
    | start => exact ⟨e, he⟩

/-- An open bracket has nothing to close it. -/
theorem returns_reduceAll_bracket {pending : Pending α} (hp : pending.isBracket = true) (place : Nat)
    (hs : s.operators = (pending, place) :: operators) :
    Returns (b.reduceAll s) fun _ => False := by
  unfold Builder.reduceAll
  rw [hs, Builder.reduceWhile, if_neg (by rw [hp]; decide), pure_bind]
  exact returns_failing ..

/-- The one operand that is left in the end. -/
def onlyOperand (operands : Operands α σ) : Parsing m α α :=
  match operands.reverse with
  | [] => throw ⟨ParseFault.noValue.at 0, []⟩
  | [entry] =>
    match entry.operand with
    | .value a => return a
    | _ => throw ⟨(ParseFault.notAValue entry.name).at entry.offset, []⟩
  | first :: second :: entries =>
    failing (first :: second :: entries).reverse [] (ParseFault.severalValues.at second.offset) []

/-- The operator that waits for an operand when there are no more tokens. -/
def Stacks.unfinished? (s : Stacks α σ) : Option (Pending α × String × Nat) :=
  if s.expectOperand then s.operators.head?.bind fun (pending, place) => pending.symbol?.map (pending, ·, place)
  else none

theorem Stacks.mem_of_unfinished? {pending : Pending α} {symbol : String} {place : Nat}
    (h : s.unfinished? = some (pending, symbol, place)) :
    (pending, place) ∈ s.operators ∧ pending.symbol? = some symbol := by
  unfold unfinished? at h
  split at h
  · obtain ⟨⟨pending', place'⟩, htop, hwaits⟩ := Option.bind_eq_some_iff.mp h
    obtain ⟨symbol', hsymbol, hsame⟩ := Option.map_eq_some_iff.mp hwaits
    cases hsame
    exact ⟨List.mem_of_mem_head? htop, hsymbol⟩
  · cases h

theorem Stacks.symbol?_of_finished (h : s.unfinished? = none) (hexpect : s.expectOperand = true) :
    ∀ p ∈ s.operators.head?, p.1.symbol? = none := by
  intro p hp
  rw [unfinished?, if_pos hexpect, hp] at h
  exact Option.map_eq_none_iff.mp h

theorem Builder.finish_eq (b : Builder m α σ) (s : Stacks α σ) :
    b.finish s = match s.unfinished? with
      | some (_, symbol, place) => s.fail (.missingOperand symbol) place
      | none => b.reduceAll s >>= onlyOperand := by
  have hfail : ∀ (fault : ParseFault) (place : Nat) (f : PUnit → Parsing m α α),
      (s.fail fault place >>= f) = s.fail fault place := fun fault place f => by
    apply ExceptT.ext
    simp [Stacks.fail, failing]
  unfold Builder.finish Stacks.unfinished?
  cases s.expectOperand with
  | false => rfl
  | true =>
    cases s.operators with
    | nil => rfl
    | cons entry operators =>
      obtain ⟨pending, place⟩ := entry
      cases hsymbol : pending.symbol? with
      | none => simp only [List.head?_cons, Option.bind_some, hsymbol, Option.map_none]; rfl
      | some symbol =>
        simp only [List.head?_cons, Option.bind_some, hsymbol, Option.map_some, if_true]
        exact hfail ..

theorem Returns.onlyOperand {x : Parsing m α (Operands α σ)} {Q : Prop}
    (h : Returns x fun operands => ∀ e, operands = [e] → Q) :
    Returns (x >>= FormulaGraph.onlyOperand) fun _ => Q := by
  refine h.bind fun operands hone => ?_
  unfold FormulaGraph.onlyOperand
  cases hr : operands.reverse with
  | nil => exact .throw _
  | cons first rest =>
    cases rest with
    | nil =>
      have hoperands : operands = [first] := by
        rw [← List.reverse_reverse operands, hr]
        rfl
      dsimp only
      split
      · exact .pure (hone first hoperands)
      · exact .throw _
    | cons second entries => exact returns_failing ..

/-- One operand stands for all the tokens, and none for no token. -/
theorem Stacks.Spelled.reduceAll (h : s.Spelled ts) (hfinished : s.unfinished? = none) :
    Returns (b.reduceAll s) fun operands =>
      (∀ x, operands = [x] → ∃ e, Spells 0 e ts) ∧ (operands = [] → ts = []) := by
  unfold Stacks.Spelled at h
  split at h
  next hexpect =>
    have hnone := Stacks.symbol?_of_finished hfinished hexpect
    obtain ⟨operands, operators, expect⟩ := s
    cases operators with
    | nil =>
      obtain ⟨hlength, hwaits⟩ := h
      obtain rfl : operands = [] := List.eq_nil_of_length_eq_zero hlength
      have hempty : ts = [] := by
        obtain hover | ⟨k, hawaits⟩ := hwaits
        · exact (Nat.lt_irrefl 0 hover).elim
        · generalize hcount : ([] : Operands α σ).length = count at hawaits
          cases hawaits
          rfl
      unfold Builder.reduceAll
      rw [Builder.reduceWhile, pure_bind]
      exact .pure ⟨fun x hx => (List.cons_ne_nil x [] hx.symm).elim, fun _ => hempty⟩
    | cons entry operators =>
      obtain ⟨pending, place⟩ := entry
      have hbracket : pending.isBracket = true := by
        have hp := hnone (pending, place) rfl
        cases pending with
        | binary | unary => cases hp
        | paren | call => rfl
      exact (returns_reduceAll_bracket hbracket place rfl).mono fun _ hf => hf.elim
  next hexpect =>
    refine (Stands.reduceAll (h.mono (Nat.zero_le 8))).mono fun operands h' => ⟨fun x hx => ?_, fun hx => ?_⟩
    · subst hx
      exact h'.spells
    · obtain ⟨n, hn, -⟩ := h'
      rw [hx] at hn
      cases hn

theorem Stacks.Spelled.finish (h : s.Spelled ts) : Returns (b.finish s) fun _ => ∃ e, Spells 0 e ts := by
  rw [Builder.finish_eq]
  cases hfinished : s.unfinished? with
  | some missing => exact returns_failing ..
  | none => exact Returns.onlyOperand ((h.reduceAll hfinished).mono fun operands hspells => hspells.1)

/-- Every token read adds to what is spelled. -/
theorem Stacks.Spelled.takeAll (h : s.Spelled us) (scope : σ) (tokens : List Token) :
    Returns (b.takeAll scope s tokens) fun _ => ∃ e, Spells 0 e (us ++ tokens) := by
  fun_induction Builder.takeAll b scope s tokens generalizing us with
  | case1 s =>
    rw [List.append_nil]
    exact h.finish
  | case2 s token after ih =>
    refine (h.takeToken scope token after).bind fun (count, s') h' => ?_
    refine (ih count s' h').mono fun _ he => ?_
    rwa [List.append_assoc, List.cons_append, List.take_append_drop] at he

end

theorem Stacks.spelled_start : ({} : Stacks α σ).Spelled [] :=
  ⟨rfl, .inr ⟨0, .start⟩⟩

/-- Whatever is read with success is spelled by the grammar. -/
theorem returns_takeAll (b : Builder m α σ) (scope : σ) (tokens : List Token) :
    Returns (b.takeAll scope {} tokens) fun _ => ∃ e, Spells 0 e tokens :=
  Stacks.spelled_start.takeAll scope tokens

end FormulaGraph
