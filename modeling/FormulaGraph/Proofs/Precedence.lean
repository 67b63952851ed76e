import FormulaGraph.Proofs.Building

/-! The reader over two stacks builds the tree that the tokens spell. An operator stays pending until a
token comes that does not bind tighter; by then all of its right operand has been built. -/

namespace FormulaGraph

/-- What may come after a tree of level `k`: the end of a slot, or an operator that binds no tighter. -/
def Closes (k : Nat) : List Token → Prop
  | [] => True
  | ⟨_, .symbol .closing⟩ :: _ | ⟨_, .symbol .comma⟩ :: _ => True
  | ⟨_, .symbol .dot⟩ :: _ => 8 ≤ k
  | ⟨_, .symbol (.binary op)⟩ :: _ => op.level ≤ k
  | _ => False

theorem Closes.mono {k k' : Nat} {ts : List Token} (h : Closes k ts) (hk : k ≤ k') : Closes k' ts := by
  unfold Closes at h ⊢
  split at h
  next => trivial
  next => trivial
  next => trivial
  next => exact Nat.le_trans h hk
  next => exact Nat.le_trans h hk
  next => exact h.elim

theorem Closes.suffixIn {k : Nat} {ts : List Token} (h : Closes k ts) : suffixIn? ts = none := by
  unfold Closes at h
  split at h <;> first | rfl | exact h.elim

theorem Closes.opensCall {k : Nat} {ts : List Token} (h : Closes k ts) : opensCall ts = false := by
  unfold Closes at h
  split at h <;> first | rfl | exact h.elim

theorem BinaryOp.level_pos (op : BinaryOp) : 0 < op.level := by cases op <;> decide

theorem BinaryOp.level_lt (op : BinaryOp) : op.level < 7 := by cases op <;> decide

theorem Suffix.ofSymbol?_symbol (suffix : Suffix) : ofSymbol? suffix.symbol = some suffix := by
  cases suffix with
  | length unit => cases unit <;> rfl
  | degrees | radians => rfl

variable {m : Type → Type} [Monad m] {α σ : Type}

/-- No operator of level `k` or tighter makes the last pending one give way. -/
def Holds (k : Nat) (operators : Operators α) : Prop :=
  ∀ op : BinaryOp, k ≤ op.level → ∀ p ∈ operators.head?, p.1.level < op.level

theorem Holds.mono {k k' : Nat} {operators : Operators α} (h : Holds k operators) (hk : k ≤ k') :
    Holds k' operators :=
  fun op hop => h op (Nat.le_trans hk hop)

theorem Holds.of_lt {k : Nat} {p : Pending α} {offset : Nat} {operators : Operators α}
    (h : ∀ op : BinaryOp, k ≤ op.level → p.level < op.level) : Holds k ((p, offset) :: operators) := by
  intro op hop q hq
  obtain rfl : (p, offset) = q := by simpa using hq
  exact h op hop

/-- Nothing but brackets holds more than an operand with its members. -/
theorem Holds.of_member (operators : Operators α) : Holds 8 operators :=
  fun op hop => absurd op.level_lt (by omega)

variable (b : Builder m α σ) (scope : σ)

theorem reduceWhile_of_holds {k : Nat} {op : BinaryOp} {operators : Operators α}
    (h : Holds k operators) (hk : k ≤ op.level) (operands : Operands α σ) :
    b.reduceWhile (op.level ≤ ·.level) operands operators = pure (operands, operators) := by
  cases operators with
  | nil => rfl
  | cons p operators =>
    have hp := h op hk p (by simp)
    obtain ⟨p, offset⟩ := p
    simp only at hp
    rw [Builder.reduceWhile, if_neg]
    simp only [decide_eq_true_eq]
    omega

theorem reduceWhile_bracket {p : Pending α} (hp : p.isBracket = true) (offset : Nat)
    (operands : Operands α σ) (operators : Operators α) :
    b.reduceWhile (!·.isBracket) operands ((p, offset) :: operators) =
      pure (operands, (p, offset) :: operators) := by
  rw [Builder.reduceWhile, if_neg (by simp [hp])]

theorem reduceWhile_step {test : Pending α → Bool} {p : Pending α} (hp : test p = true) (offset : Nat)
    (operands : Operands α σ) (operators : Operators α) :
    b.reduceWhile test operands ((p, offset) :: operators) =
      b.reduce p offset operands operators >>= fun operands => b.reduceWhile test operands operators := by
  rw [Builder.reduceWhile, if_pos hp]

theorem closeBracket_step {p : Pending α} (hp : p.isBracket = false) (empty : Bool) (offset place : Nat)
    (operands : Operands α σ) (operators : Operators α) :
    b.closeBracket empty offset operands ((p, place) :: operators) =
      b.reduce p place operands operators >>= fun operands =>
        b.closeBracket empty offset operands operators := by
  cases p with
  | binary | unary => rfl
  | paren | call => simp [Pending.isBracket] at hp

theorem succeeding_takeAll_nil (s : Stacks α σ) :
    succeeding (b.takeAll scope s []) = succeeding (b.finish s) := by
  rw [Builder.takeAll]

variable [LawfulMonad m]

theorem succeeding_calculateOn (operands : Operands α σ) (operators : Operators α)
    (operation : Operation) (arguments : List α) (offset : Nat) :
    succeeding (b.calculateOn operands operators operation arguments offset) =
      b.calculated operation arguments offset >>= fun e => pure (e :: operands) := by
  simp only [Builder.calculateOn, Builder.calculated, succeeding_bind, succeeding_liftM, bind_assoc]
  congr 1
  funext r
  cases r <;> simp

theorem succeeding_popValue (e : Entry α σ) (operands : Operands α σ) (operators : Operators α)
    (symbol : String) (offset : Nat) (loose : List α) :
    succeeding (popValue (m := m) (e :: operands) operators symbol offset loose) =
      e.only >>= fun a => pure (a, operands) := by
  obtain ⟨operand, place, name⟩ := e
  cases operand <;> simp [popValue, Entry.only]

/-- A binary operator is applied to the two entries on top. -/
theorem succeeding_reduce_binary (op : BinaryOp) (offset : Nat) (l r : Entry α σ)
    (operands : Operands α σ) (operators : Operators α) :
    succeeding (b.reduce (.binary op) offset (r :: l :: operands) operators) =
      r.only >>= fun y => l.only >>= fun x => b.calculated (.binary op) [x, y] offset >>= fun e =>
        pure (e :: operands) := by
  simp only [Builder.reduce, succeeding_bind, succeeding_popValue, succeeding_calculateOn, bind_assoc,
    pure_bind]

theorem succeeding_reduce_unary (op : UnaryOp) (offset : Nat) (e : Entry α σ)
    (operands : Operands α σ) (operators : Operators α) :
    succeeding (b.reduce (.unary op) offset (e :: operands) operators) =
      e.only >>= fun a => b.calculated (.unary op) [a] offset >>= fun e => pure (e :: operands) := by
  simp only [Builder.reduce, succeeding_bind, succeeding_popValue, succeeding_calculateOn, bind_assoc,
    pure_bind]

theorem succeeding_takeAll_cons (s : Stacks α σ) (t : Token) (ts : List Token) :
    succeeding (b.takeAll scope s (t :: ts)) =
      succeeding (b.takeToken scope s t ts) >>= fun next =>
        succeeding (b.takeAll scope next.2 (ts.drop next.1)) := by
  rw [Builder.takeAll, succeeding_bind]

/-- Whatever closes the level of a pending operator applies it first. -/
theorem takeAll_pending {k : Nat} {p : Pending α} {ts : List Token} (hts : Closes k ts) (hk : k ≤ 7)
    (hp : p.isBracket = false) (hl : k ≤ p.level) (offset : Nat) (operands : Operands α σ)
    (operators : Operators α) :
    succeeding (b.takeAll scope ⟨operands, (p, offset) :: operators, false⟩ ts) =
      succeeding (b.reduce p offset operands operators) >>= fun operands =>
        succeeding (b.takeAll scope ⟨operands, operators, false⟩ ts) := by
  unfold Closes at hts
  split at hts
  next =>
    simp only [succeeding_takeAll_nil, Builder.finish, Builder.reduceAll]
    rw [reduceWhile_step b (by simp [hp])]
    simp only [Bool.false_eq_true, ↓reduceIte, succeeding_bind, bind_assoc]
  next =>
    simp only [succeeding_takeAll_cons, Builder.takeToken, Builder.takeSymbol, Builder.takeClosing,
      closeBracket_step b hp, Bool.false_eq_true, ↓reduceIte, succeeding_bind, bind_assoc]
  next =>
    simp only [succeeding_takeAll_cons, Builder.takeToken, Builder.takeSymbol, Builder.takeComma]
    rw [reduceWhile_step b (by simp [hp])]
    simp only [Bool.false_eq_true, ↓reduceIte, succeeding_bind, bind_assoc]
  next => omega
  next =>
    simp only [succeeding_takeAll_cons, Builder.takeToken, Builder.takeSymbol, Builder.takeBinary]
    rw [reduceWhile_step b (by simp only [decide_eq_true_eq]; omega)]
    simp only [Bool.false_eq_true, ↓reduceIte, succeeding_bind, bind_assoc]
  next => exact hts.elim

/-- An entry where an operand was expected. -/
def Stacks.put (s : Stacks α σ) (e : Entry α σ) : Stacks α σ :=
  { s with operands := e :: s.operands, expectOperand := false }

/-- Reading `ts` comes to building `e` and putting it on the stack. -/
def Builds (k : Nat) (e : Expr) (ts : List Token) : Prop :=
  ∀ (s : Stacks α σ) (rest : List Token), s.expectOperand = true → Holds k s.operators →
    Closes k rest → succeeding (b.takeAll scope s (ts ++ rest)) =
      b.build scope e >>= fun entry => succeeding (b.takeAll scope (s.put entry) rest)

/-- Reading `ts` up to the closing mark of a call comes to building `es` and finishing the call. -/
def BuildsAll (es : List Expr) (ts : List Token) : Prop :=
  ∀ (operands : Operands α σ) (callee : Callee α) (base closed place closing : Nat)
    (below : Operators α) (rest : List Token), operands.length = base + closed →
    (es = [] → closed = 0) →
    succeeding (b.takeAll scope ⟨operands, (.call callee base closed, place) :: below, true⟩
      (ts ++ ⟨closing, .symbol .closing⟩ :: rest)) =
      b.buildAll scope es >>= fun entries =>
        succeeding (b.finishCall callee base place (entries.reverse ++ operands) below) >>= fun operands =>
          succeeding (b.takeAll scope ⟨operands, below, false⟩ rest)

theorem succeeding_finishCall_builtin (f : Builtin) (place : Nat) (entries : List (Entry α σ))
    (operands : Operands α σ) (operators : Operators α) :
    succeeding (b.finishCall (.builtin f) operands.length place (entries.reverse ++ operands) operators) =
      onlyValues entries >>= fun values =>
        if f.takes values.length then
          b.calculated (.builtin f) values place >>= fun e => pure (e :: operands)
        else failure := by
  have hcount : (entries.reverse ++ operands).length - operands.length = entries.reverse.length := by
    simp
  simp only [Builder.finishCall, hcount, List.take_left', List.drop_left', List.reverse_reverse, onlyValues]
  cases takeValues entries [] with
  | error e => simp
  | ok values =>
    simp only [pure_bind]
    split
    · rw [succeeding_calculateOn]
    · simp

theorem succeeding_finishCall_method (method : Method) (a : α) (place : Nat)
    (entries : List (Entry α σ)) (operands : Operands α σ) (operators : Operators α) :
    succeeding (b.finishCall (.method method a) operands.length place (entries.reverse ++ operands)
      operators) =
      onlyValues entries >>= fun values =>
        if values.length = method.arity then
          b.calculated (.method method) (a :: values) place >>= fun e => pure (e :: operands)
        else failure := by
  have hcount : (entries.reverse ++ operands).length - operands.length = entries.reverse.length := by
    simp
  simp only [Builder.finishCall, hcount, List.take_left', List.drop_left', List.reverse_reverse, onlyValues]
  cases takeValues entries [] with
  | error e => simp
  | ok values =>
    simp only [pure_bind]
    split
    · rw [succeeding_calculateOn]
    · simp

theorem builds_number {k : Nat} (digits : String) (suffix : Option Suffix) (offset place : Nat) :
    Builds b scope k (.number digits suffix offset)
      (⟨offset, .number digits⟩ :: suffixTokens suffix place) := by
  intro s rest _ _ hc
  rw [List.cons_append, succeeding_takeAll_cons]
  simp only [Builder.takeToken, Builder.takeNumber, Builder.build]
  cases readNumber? digits.toList with
  | none => simp
  | some x =>
    cases suffix with
    | none => simp [suffixTokens, hc.suffixIn, Stacks.push, Stacks.put]
    | some suffix =>
      have hu : suffixIn? (⟨place, .name suffix.symbol⟩ :: rest) = some suffix :=
        suffix.ofSymbol?_symbol
      simp [suffixTokens, hu, Stacks.put, succeeding_calculateOn]

theorem builds_text {k : Nat} (contents : String) (offset : Nat) :
    Builds b scope k (.text contents offset) [⟨offset, .text contents⟩] := by
  intro s rest _ _ _
  rw [List.singleton_append, succeeding_takeAll_cons]
  simp [Builder.takeToken, Stacks.push, Stacks.put]

theorem succeeding_takeName (s : Stacks α σ) (offset : Nat) (name : String) :
    succeeding (b.takeName scope s offset name) =
      b.named scope name offset >>= fun e => pure (s.put e) := by
  unfold Builder.takeName Builder.named
  by_cases ht : name = "true"
  · simp [ht, Stacks.push, Stacks.put]
  · by_cases hf : name = "false"
    · simp [hf, Stacks.push, Stacks.put]
    · simp only [ht, hf, ↓reduceIte, succeeding_bind, succeeding_liftM, lift_eq_liftM, bind_assoc]
      congr 1
      funext found
      cases found with
      | some found => simp [Stacks.push, Stacks.put]
      | none => cases namedConstant? name <;> simp [Stacks.push, Stacks.put]

theorem builds_name {k : Nat} (name : String) (offset : Nat) :
    Builds b scope k (.name name offset) [⟨offset, .name name⟩] := by
  intro s rest _ _ hc
  rw [List.singleton_append, succeeding_takeAll_cons]
  simp [Builder.takeToken, hc.opensCall, succeeding_takeName]

variable {b scope}

theorem Builds.group {k : Nat} {e : Expr} {ts : List Token} (opening closing : Nat)
    (h : Builds b scope 0 e ts) :
    Builds b scope k (.group e)
      (⟨opening, .symbol .opening⟩ :: (ts ++ [⟨closing, .symbol .closing⟩])) := by
  intro s rest _ _ _
  have hs := h ⟨s.operands, (.paren, opening) :: s.operators, true⟩ (⟨closing, .symbol .closing⟩ :: rest)
    rfl (.of_lt fun op _ => op.level_pos) trivial
  rw [List.cons_append, List.append_assoc, List.singleton_append, succeeding_takeAll_cons]
  simp only [Builder.takeToken, Builder.takeSymbol, Stacks.pushOperator, succeeding_pure, pure_bind,
    List.drop_zero, hs, Builder.build]
  congr 1
  funext entry
  simp [succeeding_takeAll_cons, Builder.takeToken, Builder.takeSymbol, Builder.takeClosing,
    Builder.closeBracket, Stacks.put]

theorem Builds.unary {k : Nat} {e : Expr} {ts : List Token} (op : UnaryOp) (offset : Nat) (hk : k ≤ 7)
    (h : Builds b scope 7 e ts) :
    Builds b scope k (.unary op e offset) (⟨offset, .symbol op.mark⟩ :: ts) := by
  intro s rest he hh hc
  have hs := h ⟨s.operands, (.unary op, offset) :: s.operators, true⟩ rest rfl
    (.of_lt fun op hop => absurd op.level_lt (by omega)) (hc.mono hk)
  have hmark : b.takeToken scope s ⟨offset, .symbol op.mark⟩ (ts ++ rest) =
      pure (0, ⟨s.operands, (.unary op, offset) :: s.operators, true⟩) := by
    cases op <;>
      simp [Builder.takeToken, UnaryOp.mark, Builder.takeSymbol, Builder.takeBinary, he,
        Stacks.pushOperator]
  rw [List.cons_append, succeeding_takeAll_cons, hmark]
  simp only [succeeding_pure, pure_bind, List.drop_zero, hs, Builder.build, bind_assoc]
  congr 1
  funext entry
  simp only [Stacks.put]
  rw [takeAll_pending b scope (p := .unary op) hc hk rfl hk, succeeding_reduce_unary]
  simp only [bind_assoc, pure_bind]

theorem Builds.binary {k : Nat} {l r : Expr} {ts us : List Token} (op : BinaryOp) (offset : Nat)
    (hk : k ≤ op.level) (hl : Builds b scope op.level l ts) (hr : Builds b scope (op.level + 1) r us) :
    Builds b scope k (.binary op l r offset) (ts ++ ⟨offset, .symbol (.binary op)⟩ :: us) := by
  intro s rest he hh hc
  have hnext : Closes op.level (⟨offset, .symbol (.binary op)⟩ :: us ++ rest) := Nat.le_refl op.level
  rw [List.append_assoc, hl s _ he (hh.mono hk) hnext]
  simp only [Builder.build, bind_assoc]
  congr 1
  funext x
  have hs := hr ⟨x :: s.operands, (.binary op, offset) :: s.operators, true⟩ rest rfl
    (.of_lt fun op' hop => hop) (hc.mono (by omega))
  rw [List.cons_append, succeeding_takeAll_cons]
  simp only [Builder.takeToken, Builder.takeSymbol, Builder.takeBinary, Stacks.put,
    reduceWhile_of_holds b hh hk, Bool.false_eq_true, ↓reduceIte, succeeding_pure, pure_bind,
    List.drop_zero, hs]
  congr 1
  funext y
  have hlt := op.level_lt
  rw [takeAll_pending b scope (p := .binary op) hc (by omega) rfl hk, succeeding_reduce_binary]
  simp only [bind_assoc, pure_bind]

theorem Builds.field {k : Nat} {e : Expr} {ts : List Token} (name : String) (dot offset : Nat)
    (h : Builds b scope 8 e ts) :
    Builds b scope k (.field e name offset) (ts ++ [⟨dot, .symbol .dot⟩, ⟨offset, .name name⟩]) := by
  intro s rest he hh hc
  have hnext : Closes 8 ([⟨dot, .symbol .dot⟩, ⟨offset, .name name⟩] ++ rest) := Nat.le_refl 8
  rw [List.append_assoc, h s _ he (.of_member _) hnext]
  simp only [Builder.build, bind_assoc]
  congr 1
  funext entry
  rw [List.cons_append, succeeding_takeAll_cons]
  simp only [Builder.takeToken, Builder.takeSymbol, Builder.takeMember, Stacks.put, List.cons_append,
    List.nil_append, hc.opensCall, Bool.false_eq_true, ↓reduceIte]
  simp only [Builder.member]
  cases entry.operand with
  | list => simp
  | scope inner =>
    simp only [succeeding_bind, succeeding_liftM, lift_eq_liftM, bind_assoc]
    congr 1
    funext found
    cases found <;> simp
  | value a =>
    simp only [succeeding_bind, succeeding_liftM, bind_assoc]
    congr 1
    funext kind
    cases kind with
    | error => simp
    | ok kind => cases hf : kind.field? name <;> simp [hf, succeeding_calculateOn]

theorem Builds.call {k : Nat} {es : List Expr} {ts : List Token} (name : String)
    (offset opening closing : Nat) (h : BuildsAll b scope es ts) :
    Builds b scope k (.call name es offset)
      (⟨offset, .name name⟩ :: ⟨opening, .symbol .opening⟩ :: (ts ++ [⟨closing, .symbol .closing⟩])) := by
  intro s rest he hh hc
  rw [List.cons_append, succeeding_takeAll_cons]
  simp only [Builder.takeToken, List.cons_append, opensCall, ↓reduceIte, Builder.build]
  cases Builtin.ofName? name with
  | none => simp
  | some f =>
    have hs := h s.operands (.builtin f) s.operands.length 0 offset closing s.operators rest rfl
      (fun _ => rfl)
    simp only [succeeding_pure, pure_bind, Stacks.openCall, List.drop_succ_cons, List.drop_zero,
      List.append_assoc, List.singleton_append, hs, succeeding_finishCall_builtin, bind_assoc]
    congr 1
    funext entries
    congr 1
    funext values
    split <;> simp [Stacks.put]

theorem Builds.method {k : Nat} {e : Expr} {es : List Expr} {ts us : List Token} (name : String)
    (dot offset opening closing : Nat) (h : Builds b scope 8 e ts) (hs : BuildsAll b scope es us) :
    Builds b scope k (.method e name es offset)
      (ts ++ ⟨dot, .symbol .dot⟩ :: ⟨offset, .name name⟩ :: ⟨opening, .symbol .opening⟩ ::
        (us ++ [⟨closing, .symbol .closing⟩])) := by
  intro s rest he hh hc
  have hnext : Closes 8 (⟨dot, .symbol .dot⟩ :: ⟨offset, .name name⟩ :: ⟨opening, .symbol .opening⟩ ::
      (us ++ [⟨closing, .symbol .closing⟩]) ++ rest) := Nat.le_refl 8
  rw [List.append_assoc, h s _ he (.of_member _) hnext]
  simp only [Builder.build, bind_assoc]
  congr 1
  funext entry
  rw [List.cons_append, succeeding_takeAll_cons]
  simp only [Builder.takeToken, Builder.takeSymbol, Builder.takeMember, Stacks.put, List.cons_append,
    opensCall, Bool.false_eq_true, ↓reduceIte, Builder.methodOf, Entry.only]
  cases entry.operand with
  | list | scope => simp
  | value a =>
    simp only [succeeding_bind, succeeding_liftM, pure_bind, bind_assoc]
    congr 1
    funext kind
    cases kind with
    | error => simp
    | ok kind =>
      cases hm : kind.method? name with
      | none => simp [hm]
      | some method =>
        have hs := hs s.operands (.method method a) s.operands.length 0 offset closing s.operators rest
          rfl (fun _ => rfl)
        simp only [hm, succeeding_pure, pure_bind, Stacks.openCall, List.drop_succ_cons, List.drop_zero,
          List.append_assoc, List.singleton_append, hs, succeeding_finishCall_method, bind_assoc]
        congr 1
        funext entries
        congr 1
        funext values
        split <;> simp

theorem BuildsAll.nil : BuildsAll b scope [] [] := by
  intro operands callee base closed place closing below rest hlen hclosed
  obtain rfl := hclosed rfl
  rw [List.nil_append, succeeding_takeAll_cons]
  simp [Builder.takeToken, Builder.takeSymbol, Builder.takeClosing, Builder.closeBracket]

omit [LawfulMonad m] in
theorem buildAll_cons (e : Expr) (es : List Expr) :
    b.buildAll scope (e :: es) =
      b.build scope e >>= fun x => b.buildAll scope es >>= fun xs => pure (x :: xs) := by
  rw [Builder.buildAll]

theorem slotFault_eq_none {operands : Operands α σ} {base slot : Nat} (h : operands.length = base + slot + 1)
    (offset : Nat) : slotFault? operands base slot offset = none := by
  unfold slotFault?
  rw [List.getElem?_eq_none (by simp [h])]
  simp [h]

theorem BuildsAll.last {e : Expr} {ts : List Token} (h : Builds b scope 0 e ts) :
    BuildsAll b scope [e] ts := by
  intro operands callee base closed place closing below rest hlen _
  have hs := h ⟨operands, (.call callee base closed, place) :: below, true⟩
    (⟨closing, .symbol .closing⟩ :: rest) rfl (.of_lt fun op _ => op.level_pos) trivial
  rw [hs]
  simp only [Builder.buildAll, bind_assoc, pure_bind]
  congr 1
  funext entry
  have hslot : slotFault? (entry :: operands) base closed closing = none :=
    slotFault_eq_none (by simp [hlen]) closing
  rw [succeeding_takeAll_cons]
  simp [Builder.takeToken, Builder.takeSymbol, Builder.takeClosing, Builder.closeBracket, Stacks.put,
    hslot]

theorem BuildsAll.more {e e' : Expr} {es : List Expr} {ts us : List Token} (comma : Nat)
    (h : Builds b scope 0 e ts) (hs : BuildsAll b scope (e' :: es) us) :
    BuildsAll b scope (e :: e' :: es) (ts ++ ⟨comma, .symbol .comma⟩ :: us) := by
  intro operands callee base closed place closing below rest hlen _
  have hfirst := h ⟨operands, (.call callee base closed, place) :: below, true⟩
    (⟨comma, .symbol .comma⟩ :: us ++ ⟨closing, .symbol .closing⟩ :: rest) rfl
    (.of_lt fun op _ => op.level_pos) trivial
  rw [List.append_assoc, hfirst]
  rw [buildAll_cons]
  simp only [bind_assoc, pure_bind]
  congr 1
  funext entry
  have hslot : slotFault? (entry :: operands) base closed comma = none :=
    slotFault_eq_none (by simp [hlen]) comma
  have hrest := hs (entry :: operands) callee base (closed + 1) place closing below rest
    (by simp [hlen]; omega) (by simp)
  rw [List.cons_append, succeeding_takeAll_cons]
  have hstop := reduceWhile_bracket b (p := .call callee base closed) rfl place (entry :: operands) below
  simp [Builder.takeToken, Builder.takeSymbol, Builder.takeComma, Stacks.put, hslot, hstop, hrest]

mutual

theorem Spells.builds {k : Nat} {e : Expr} {ts : List Token} :
    Spells k e ts → Builds b scope k e ts
  | .number digits suffix offset place => builds_number b scope digits suffix offset place
  | .text contents offset => builds_text b scope contents offset
  | .name name offset => builds_name b scope name offset
  | .group opening closing h => h.builds.group opening closing
  | .call name offset opening closing h => .call name offset opening closing h.builds
  | .field name dot offset h => h.builds.field name dot offset
  | .method name dot offset opening closing h hs =>
    h.builds.method name dot offset opening closing hs.builds
  | .unary op offset hk h => h.builds.unary op offset hk
  | .binary op offset hk hl hr => hl.builds.binary op offset hk hr.builds

theorem SpellsAll.builds {es : List Expr} {ts : List Token} :
    SpellsAll es ts → BuildsAll b scope es ts
  | .nil => .nil
  | .last h => .last h.builds
  | .more comma h hs => .more comma h.builds hs.builds

end

/-- The reader builds the tree that the tokens spell, and comes to one value if the tree does. -/
theorem Spells.takeAll (b : Builder m α σ) (scope : σ) {e : Expr} {ts : List Token} (h : Spells 0 e ts) :
    succeeding (b.takeAll scope {} ts) = b.build scope e >>= Entry.only := by
  have hb : Builds b scope 0 e ts := h.builds
  have hs := hb {} [] rfl (fun _ _ _ hp => absurd hp (by simp)) trivial
  rw [List.append_nil] at hs
  rw [hs]
  congr 1
  funext entry
  simp only [succeeding_takeAll_nil, Builder.finish, Builder.reduceAll, Stacks.put,
    Builder.reduceWhile]
  cases h : entry.operand <;> simp [Entry.only, h]

end FormulaGraph
