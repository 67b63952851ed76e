import FormulaGraph.Proofs.Grammar
import FormulaGraph.Formula.Parse

/-! Trees built directly, by recursion on the tree. The reader over two stacks does the same to the same
builder in the same order, whatever the builder is. -/

namespace FormulaGraph

variable {m : Type → Type} [Monad m] {α σ : Type}

/-- What comes of it if it does not fail. -/
def succeeding {ε β : Type} (x : ExceptT ε m β) : OptionT m β :=
  OptionT.mk (Except.toOption <$> x.run)

@[simp] theorem lift_eq_liftM {β : Type} (x : m β) : OptionT.lift x = (liftM x : OptionT m β) := rfl

section

variable [LawfulMonad m] {ε β γ : Type}

theorem run_liftM (x : m β) : (liftM x : OptionT m β).run = some <$> x := by
  rw [← lift_eq_liftM, OptionT.run_lift, bind_pure_comp]

@[simp] theorem succeeding_pure (a : β) : succeeding (pure a : ExceptT ε m β) = pure a := by
  apply OptionT.ext
  simp [succeeding, Except.toOption]

@[simp] theorem succeeding_throw (e : ε) : succeeding (throw e : ExceptT ε m β) = failure := by
  apply OptionT.ext
  simp [succeeding, Except.toOption]

@[simp] theorem succeeding_liftM (x : m β) :
    succeeding (liftM x : ExceptT ε m β) = (liftM x : OptionT m β) := by
  apply OptionT.ext
  rw [← lift_eq_liftM]
  simp only [succeeding, OptionT.run_mk, ExceptT.run_liftM, OptionT.run_lift]
  simp [Except.toOption]

@[simp] theorem succeeding_bind (x : ExceptT ε m β) (f : β → ExceptT ε m γ) :
    succeeding (x >>= f) = succeeding x >>= fun a => succeeding (f a) := by
  apply OptionT.ext
  simp only [succeeding, ExceptT.run_bind, OptionT.run_bind, OptionT.run_mk, Option.elimM, map_bind,
    bind_map_left]
  congr 1
  funext r
  cases r <;> simp [Except.toOption]

@[simp] theorem succeeding_map (x : ExceptT ε m β) (f : β → γ) :
    succeeding (f <$> x) = f <$> succeeding x := by
  rw [← bind_pure_comp, ← bind_pure_comp, succeeding_bind]
  simp only [succeeding_pure]

@[simp] theorem failure_bind (f : β → OptionT m γ) : (failure >>= f) = failure := by
  apply OptionT.ext
  simp

@[simp] theorem succeeding_failing (operands : Operands α σ) (operators : Operators α)
    (e : FormulaError) (loose : List α) :
    succeeding (failing operands operators e loose : Parsing m α β) = failure :=
  succeeding_throw _

@[simp] theorem succeeding_fail (s : Stacks α σ) (fault : ParseFault) (offset : Nat) :
    succeeding (s.fail fault offset : Parsing m α β) = failure :=
  succeeding_throw _

end

/-- The entry that a calculation makes. -/
def Builder.calculated (b : Builder m α σ) (operation : Operation) (arguments : List α) (offset : Nat) :
    OptionT m (Entry α σ) := do
  match ← b.calculate operation arguments offset with
  | .ok a => return ⟨.value a, offset, ""⟩
  | .error _ => failure

/-- The entry that a name makes. -/
def Builder.named (b : Builder m α σ) (scope : σ) (name : String) (offset : Nat) :
    OptionT m (Entry α σ) := do
  if name = "true" then return ⟨.value (← b.literal (.bool true)), offset, name⟩
  if name = "false" then return ⟨.value (← b.literal (.bool false)), offset, name⟩
  match ← OptionT.lift (b.resolve scope name) with
  | some found => return ⟨found, offset, name⟩
  | none =>
    match namedConstant? name with
    | some value => return ⟨.value (← b.literal value), offset, name⟩
    | none => failure

def Entry.only (e : Entry α σ) : OptionT m α :=
  match e.operand with
  | .value a => return a
  | _ => failure

def onlyValues (entries : List (Entry α σ)) : OptionT m (List α) :=
  match takeValues entries [] with
  | .ok values => return values
  | .error _ => failure

/-- The entry that a field of an entry makes. -/
def Builder.member (b : Builder m α σ) (receiver : Entry α σ) (name : String) (offset : Nat) :
    OptionT m (Entry α σ) := do
  match receiver.operand with
  | .value a =>
    let .ok kind ← b.kind a | failure
    let some field := kind.field? name | failure
    b.calculated (.field field) [a] offset
  | .scope inner =>
    let some found ← OptionT.lift (b.resolve inner name) | failure
    return ⟨found, offset, name⟩
  | .list => failure

/-- What is called of an entry, found before the arguments are built. -/
def Builder.methodOf (b : Builder m α σ) (receiver : Entry α σ) (name : String) :
    OptionT m (α × Method) := do
  let a ← receiver.only
  let .ok kind ← b.kind a | failure
  let some method := kind.method? name | failure
  return (a, method)

mutual

/-- The entry that a tree makes. Everything is built once, operands and arguments from left to right. -/
@[simp] def Builder.build (b : Builder m α σ) (scope : σ) : Expr → OptionT m (Entry α σ)
  | .number digits suffix offset => do
    let some x := readNumber? digits.toList | failure
    let literal ← b.literal (.scalar x)
    match suffix with
    | none => return ⟨.value literal, offset, ""⟩
    | some suffix => b.calculated (.convert suffix) [literal] offset
  | .text contents offset => return ⟨.value (← b.literal (.text contents)), offset, ""⟩
  | .name name offset => b.named scope name offset
  | .group inner => b.build scope inner
  | .call name arguments offset => do
    let some f := Builtin.ofName? name | failure
    let values ← onlyValues (← b.buildAll scope arguments)
    if f.takes values.length then b.calculated (.builtin f) values offset else failure
  | .field receiver name offset => do b.member (← b.build scope receiver) name offset
  | .method receiver name arguments offset => do
    let (a, method) ← b.methodOf (← b.build scope receiver) name
    let values ← onlyValues (← b.buildAll scope arguments)
    if values.length = method.arity then b.calculated (.method method) (a :: values) offset else failure
  | .unary op operand offset => do
    let a ← (← b.build scope operand).only
    b.calculated (.unary op) [a] offset
  | .binary op left right offset => do
    let l ← b.build scope left
    let r ← b.build scope right
    let y ← r.only
    let x ← l.only
    b.calculated (.binary op) [x, y] offset

@[simp] def Builder.buildAll (b : Builder m α σ) (scope : σ) : List Expr → OptionT m (List (Entry α σ))
  | [] => return []
  | e :: es => return (← b.build scope e) :: (← b.buildAll scope es)

end

end FormulaGraph
