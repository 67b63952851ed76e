import FormulaGraph.Proofs.Precedence
import FormulaGraph.Formula.Evaluate

/-! The value of a tree from the bottom up, and that of its tokens as they are read. Both look names up
in scopes whose properties have results that do not change meanwhile. -/

namespace FormulaGraph

variable {σ : Type}

/-- What names stand for; a property by the result of reading it. -/
abbrev Results (σ : Type) := σ → String → Option (Found (Checked Value) σ)

/-- Everything is known by the result of reading it. -/
def fixedBuilder (results : Results σ) : Builder Id (Checked Value) σ where
  literal value := .ok value
  calculate operation operands offset :=
    match operands.mapM id with
    | .ok values => (applyAt operation values offset).map .ok
    | .error e => .error e
  kind result := result.map Value.kind
  resolve := results
  discard _ := ()

def evaluateTokens (results : Results σ) (scope : σ) (tokens : List Token) : Checked Value :=
  match ((fixedBuilder results).takeAll scope {} tokens).run with
  | .ok result => result
  | .error failure => .error failure.error

def Found.read? : Found (Checked Value) σ → Option (Found Value σ)
  | .value (.ok v) => some (.value v)
  | .value (.error _) => none
  | .scope inner => some (.scope inner)
  | .list => some .list

def Operation.value? (operation : Operation) (operands : List Value) : Option Value :=
  (operation.apply operands).toOption

mutual

/-- Every operand and every argument has to have a value, also those that the result does not hang on. -/
def Expr.meaning (results : Results σ) (scope : σ) : Expr → Option (Found Value σ)
  | .number digits suffix _ => do
    let x ← readNumber? digits.toList
    match suffix with
    | none => return .value (.scalar x)
    | some suffix => return .value (← (Operation.convert suffix).value? [.scalar x])
  | .text contents _ => return .value (.text contents)
  | .name word _ =>
    if word = "true" then some (.value (.bool true))
    else if word = "false" then some (.value (.bool false))
    else match results scope word with
      | some found => found.read?
      | none => (namedConstant? word).map .value
  | .group inner => inner.meaning results scope
  | .call word arguments _ => do
    let f ← Builtin.ofName? word
    return .value (← (Operation.builtin f).value? (← Expr.meanings results scope arguments))
  | .field receiver word _ => do
    match ← receiver.meaning results scope with
    | .value v => return .value (← (Operation.field (← v.kind.field? word)).value? [v])
    | .scope inner => (← results inner word).read?
    | .list => none
  | .method receiver word arguments _ => do
    let v ← (← receiver.meaning results scope).value?
    let method ← v.kind.method? word
    return .value (← (Operation.method method).value? (v :: (← Expr.meanings results scope arguments)))
  | .unary op operand _ => do
    let v ← (← operand.meaning results scope).value?
    return .value (← (Operation.unary op).value? [v])
  | .binary op left right _ => do
    let v ← (← left.meaning results scope).value?
    let w ← (← right.meaning results scope).value?
    return .value (← (Operation.binary op).value? [v, w])

def Expr.meanings (results : Results σ) (scope : σ) : List Expr → Option (List Value)
  | [] => some []
  | e :: es => return (← (← e.meaning results scope).value?) :: (← Expr.meanings results scope es)

end

variable (results : Results σ) (scope : σ)

section

variable {β γ : Type}

theorem run_bind_id (x : OptionT Id β) (f : β → OptionT Id γ) :
    (x >>= f).run = Option.bind x.run fun a => (f a).run := by
  cases x <;> rfl

theorem run_map_id (x : Id β) (f : β → γ) : Id.instMonad.toFunctor.map f x = f x := rfl

theorem run_pure_id (a : β) : (pure a : OptionT Id β).run = some a := rfl

theorem run_ite_id (c : Prop) [Decidable c] (x y : OptionT Id β) :
    (if c then x else y).run = if c then x.run else y.run := by
  split <;> rfl

end

theorem fixedBuilder_kind (result : Checked Value) :
    (fixedBuilder results).kind result = result.map Value.kind := rfl

theorem run_calculated (operation : Operation) (operands : List (Checked Value)) (offset : Nat) :
    ((fixedBuilder results).calculated operation operands offset).run =
      ((operands.mapM Except.toOption).bind operation.value?).map fun v => ⟨.value (.ok v), offset, ""⟩ := by
  have hm : operands.mapM Except.toOption = (operands.mapM id : Checked (List Value)).toOption := by
    induction operands with
    | nil => rfl
    | cons x xs ih =>
      simp only [List.mapM_cons, ih]
      cases x with
      | error => rfl
      | ok v => cases (xs.mapM id : Checked (List Value)) <;> rfl
  rw [hm]
  simp only [Builder.calculated, run_bind_id, run_liftM, run_map_id, Option.bind_some, fixedBuilder]
  cases (operands.mapM id : Checked (List Value)) with
  | error => rfl
  | ok values =>
    simp only [applyAt, Operation.value?, Except.toOption, Option.bind_some]
    cases operation.apply values <;> rfl

theorem builtin_value?_of_not_takes {f : Builtin} {values : List Value}
    (h : ¬ f.takes values.length = true) : (Operation.builtin f).value? values = none := by
  simp [Operation.value?, Operation.apply, Operation.perform, Builtin.call, h]
  rfl

theorem method_value?_of_ne {m : Method} {v : Value} {values : List Value}
    (h : values.length ≠ m.arity) : (Operation.method m).value? (v :: values) = none := by
  simp [Operation.value?, Operation.apply, Operation.perform, Method.call, h]
  rfl

theorem mapM_cons_ok {v : Value} {xs : List (Checked Value)} {values : List Value}
    (h : (.ok v :: xs).mapM Except.toOption = some values) :
    ∃ vs, xs.mapM Except.toOption = some vs ∧ values = v :: vs := by
  rw [List.mapM_cons] at h
  cases hv : xs.mapM Except.toOption with
  | none => rw [hv] at h; cases h
  | some vs =>
    rw [hv] at h
    cases h
    exact ⟨vs, rfl, rfl⟩

theorem length_of_mapM {xs : List (Checked Value)} {values : List Value}
    (h : xs.mapM Except.toOption = some values) : values.length = xs.length := by
  induction xs generalizing values with
  | nil => cases h; rfl
  | cons x xs ih =>
    cases x with
    | error => rw [List.mapM_cons] at h; cases h
    | ok v =>
      obtain ⟨vs, hvs, rfl⟩ := mapM_cons_ok h
      simp [ih hvs]

theorem run_calculated_of_none {operation : Operation} {operands : List (Checked Value)} {offset : Nat}
    (h : ∀ values, operands.mapM Except.toOption = some values → operation.value? values = none) :
    ((fixedBuilder results).calculated operation operands offset).run = none := by
  rw [run_calculated]
  cases hv : operands.mapM Except.toOption with
  | none => rfl
  | some values => simp [h values hv]

theorem run_only (x : Entry (Checked Value) σ) : (x.only : OptionT Id _).run = x.operand.value? := by
  obtain ⟨operand, _, _⟩ := x
  cases operand <;> rfl

theorem toOption_takeValues {α : Type} (entries : List (Entry α σ)) (taken : List α) :
    (takeValues entries taken).toOption =
      (entries.mapM fun x : Entry α σ => x.operand.value?).map (taken.reverse ++ ·) := by
  induction entries generalizing taken with
  | nil => simp [takeValues, Except.toOption]
  | cons x xs ih =>
    rw [takeValues, List.mapM_cons]
    cases hx : x.operand with
    | value a =>
      rw [ih]
      cases xs.mapM fun x : Entry α σ => x.operand.value? <;> simp [Found.value?]
    | scope | list => rfl

theorem run_onlyValues (entries : List (Entry (Checked Value) σ)) :
    (onlyValues entries : OptionT Id _).run =
      entries.mapM fun x : Entry (Checked Value) σ => x.operand.value? := by
  have h := toOption_takeValues entries []
  simp only [List.reverse_nil, List.nil_append, Option.map_id'] at h
  rw [← h, onlyValues]
  cases takeValues entries [] <;> rfl

/-- What an entry comes to once it is read. -/
def Entry.read? (x : Entry (Checked Value) σ) : Option (Found Value σ) := x.operand.read?

def Entry.result? (x : Entry (Checked Value) σ) : Option Value := x.read?.bind Found.value?

theorem Entry.result?_eq (x : Entry (Checked Value) σ) :
    x.result? = x.operand.value?.bind Except.toOption := by
  obtain ⟨operand, _, _⟩ := x
  cases operand with
  | value result => cases result <;> rfl
  | scope | list => rfl

theorem mapM_result? (entries : List (Entry (Checked Value) σ)) :
    entries.mapM Entry.result? =
      (entries.mapM fun x : Entry (Checked Value) σ => x.operand.value?).bind
        (·.mapM Except.toOption) := by
  induction entries with
  | nil => rfl
  | cons x xs ih =>
    rw [List.mapM_cons, List.mapM_cons, ih, Entry.result?_eq]
    cases x.operand.value? with
    | none => rfl
    | some a =>
      cases xs.mapM fun x : Entry (Checked Value) σ => x.operand.value? <;>
        cases a <;> simp [Except.toOption]

/-- A calculation needs the result of each of its operands. -/
theorem read_calculated (operation : Operation) (entries : List (Entry (Checked Value) σ))
    (offset : Nat) :
    ((entries.mapM fun x : Entry (Checked Value) σ => x.operand.value?).bind fun operands =>
      ((fixedBuilder results).calculated operation operands offset).run.bind Entry.read?) =
      (entries.mapM Entry.result?).bind fun values =>
        (operation.value? values).bind fun v => some (.value v) := by
  rw [mapM_result?, Option.bind_assoc]
  congr 1
  funext operands
  rw [run_calculated]
  cases operands.mapM Except.toOption with
  | none => rfl
  | some values => cases h : operation.value? values <;> simp [h, Entry.read?, Found.read?]

theorem read_calculated_receiver (operation : Operation) (v : Value)
    (entries : List (Entry (Checked Value) σ)) (offset : Nat) :
    ((entries.mapM fun x : Entry (Checked Value) σ => x.operand.value?).bind fun operands =>
      ((fixedBuilder results).calculated operation (.ok v :: operands) offset).run.bind Entry.read?) =
      (entries.mapM Entry.result?).bind fun values =>
        (operation.value? (v :: values)).bind fun w => some (.value w) := by
  rw [mapM_result?, Option.bind_assoc]
  congr 1
  funext operands
  rw [run_calculated, List.mapM_cons]
  cases operands.mapM Except.toOption with
  | none => rfl
  | some values =>
    cases h : operation.value? (v :: values) <;> simp [h, Entry.read?, Found.read?, Except.toOption]

theorem read_calculated_one (operation : Operation) (x : Entry (Checked Value) σ) (offset : Nat) :
    (x.operand.value?.bind fun a =>
      ((fixedBuilder results).calculated operation [a] offset).run.bind Entry.read?) =
      x.result?.bind fun v => (operation.value? [v]).bind fun v => some (.value v) := by
  have h := read_calculated results operation [x] offset
  simpa [List.mapM_cons, Option.bind_assoc] using h

theorem read_calculated_two (operation : Operation) (x y : Entry (Checked Value) σ) (offset : Nat) :
    (y.operand.value?.bind fun b => x.operand.value?.bind fun a =>
      ((fixedBuilder results).calculated operation [a, b] offset).run.bind Entry.read?) =
      x.result?.bind fun v => y.result?.bind fun w =>
        (operation.value? [v, w]).bind fun v => some (.value v) := by
  rw [Option.bind_comm]
  have h := read_calculated results operation [x, y] offset
  simpa [List.mapM_cons, Option.bind_assoc] using h

theorem Entry.read?_bind {β : Type} (x : Entry (Checked Value) σ) (f : Value → Option β) :
    (x.read?.bind fun found => found.value?.bind f) = x.result?.bind f :=
  (Option.bind_assoc ..).symm

mutual

theorem build_meaning (e : Expr) :
    Option.bind ((fixedBuilder results).build scope e).run Entry.read? = e.meaning results scope := by
  cases e with
  | number digits suffix offset =>
    simp only [Builder.build, Expr.meaning]
    cases readNumber? digits.toList with
    | none => rfl
    | some x =>
      cases suffix with
      | none => rfl
      | some suffix =>
        exact read_calculated_one results (.convert suffix) ⟨.value (.ok (.scalar x)), 0, ""⟩ offset
  | text contents offset => rfl
  | name word offset =>
    simp only [Builder.build, Expr.meaning, Builder.named]
    split
    · rfl
    · split
      · rfl
      · simp only [lift_eq_liftM, run_bind_id, run_liftM, run_map_id, Option.bind_some]
        simp only [fixedBuilder]
        cases results scope word with
        | some found => rfl
        | none => cases namedConstant? word <;> rfl
  | group inner =>
    simp only [Builder.build, Expr.meaning]
    exact build_meaning inner
  | call word arguments offset =>
    simp only [Builder.build, Expr.meaning]
    cases Builtin.ofName? word with
    | none => rfl
    | some f =>
      simp only [run_bind_id, run_onlyValues, Option.bind_eq_bind, Option.bind_some]
      rw [← buildAll_meanings arguments]
      simp only [Option.bind_assoc, run_ite_id, Option.pure_def]
      congr 1
      funext xs
      rw [← read_calculated results (.builtin f) xs offset]
      congr 1
      funext values
      split
      · rfl
      next hf =>
        rw [run_calculated_of_none results fun vs hvs => builtin_value?_of_not_takes (by
          rwa [length_of_mapM hvs])]
        rfl
  | field receiver word offset =>
    simp only [Builder.build, Expr.meaning, run_bind_id]
    rw [← build_meaning receiver]
    simp only [Option.bind_eq_bind, Option.bind_assoc]
    congr 1
    funext x
    simp only [Builder.member, Entry.read?]
    cases hx : x.operand with
    | list => rfl
    | scope inner =>
      simp only [lift_eq_liftM, run_bind_id, run_liftM, run_map_id, Option.bind_some, Found.read?]
      simp only [fixedBuilder]
      cases results inner word <;> rfl
    | value result =>
      cases result with
      | error => rfl
      | ok v =>
        simp only [run_bind_id, run_liftM, run_map_id, Option.bind_some, Found.read?]
        simp only [fixedBuilder_kind, Except.map]
        cases v.kind.field? word with
        | none => rfl
        | some f => exact read_calculated_one results (.field f) ⟨.value (.ok v), 0, ""⟩ offset
  | method receiver word arguments offset => 
    simp only [Builder.build, Expr.meaning, run_bind_id]
    rw [← build_meaning receiver]
    simp only [Option.bind_eq_bind, Option.bind_assoc]
    congr 1
    funext x
    rw [Entry.read?_bind]
    rw [Entry.result?_eq]
    simp only [Builder.methodOf, run_bind_id, run_only, Option.bind_assoc]
    congr 1
    funext a
    cases a with
    | error => rfl
    | ok v =>
      simp only [run_liftM, run_map_id, Option.bind_some, Except.toOption]
      simp only [fixedBuilder_kind, Except.map]
      cases v.kind.method? word with
      | none => rfl
      | some f =>
        simp only [run_pure_id, Option.bind_some]
        rw [← buildAll_meanings arguments]
        simp only [Option.bind_assoc, run_onlyValues, run_ite_id]
        congr 1
        funext xs
        simp only [Option.pure_def]
        rw [← read_calculated_receiver results (.method f) v xs offset]
        congr 1
        funext operands
        split
        · rfl
        next hf =>
          rw [run_calculated_of_none results fun values hvalues => ?_]
          · rfl
          · obtain ⟨vs, hvs, rfl⟩ := mapM_cons_ok hvalues
            exact method_value?_of_ne (by rwa [length_of_mapM hvs])
  | unary op operand offset =>
    simp only [Builder.build, Expr.meaning, run_bind_id, run_only]
    rw [← build_meaning operand]
    simp only [Option.bind_eq_bind, Option.bind_assoc, read_calculated_one, Entry.read?_bind,
      Option.pure_def]
  | binary op l r offset =>
    simp only [Builder.build, Expr.meaning, run_bind_id, run_only]
    rw [← build_meaning l, ← build_meaning r]
    simp only [Option.bind_eq_bind, Option.bind_assoc, read_calculated_two, Entry.read?_bind,
      Option.pure_def]
    congr 1
    funext x
    rw [Option.bind_comm]

theorem buildAll_meanings (es : List Expr) :
    (Option.bind ((fixedBuilder results).buildAll scope es).run fun xs => xs.mapM Entry.result?) =
      Expr.meanings results scope es := by
  cases es with
  | nil => rfl
  | cons e es =>
    simp only [Builder.buildAll, Expr.meanings, run_bind_id]
    rw [← build_meaning e, ← buildAll_meanings es]
    simp only [Option.bind_eq_bind, Option.bind_assoc, Entry.read?_bind, Option.pure_def, run_pure_id,
      Option.bind_some, List.mapM_cons]
    congr 1
    funext x
    rw [Option.bind_comm]

end

theorem toOption_eq_some {ε β : Type} {x : Except ε β} {a : β} : x.toOption = some a ↔ x = .ok a := by
  cases x <;> simp [Except.toOption]

theorem Found.eq_of_value? {α : Type} {found : Found α σ} {a : α} (h : found.value? = some a) :
    found = .value a := by
  cases found with
  | value b => exact congrArg Found.value (Option.some.inj h)
  | scope | list => cases h

theorem toOption_evaluateTokens {e : Expr} {ts : List Token} (h : Spells 0 e ts) :
    (evaluateTokens results scope ts).toOption = (e.meaning results scope).bind Found.value? := by
  have hs := congrArg (fun x => x.run.bind Except.toOption) (h.takeAll (fixedBuilder results) scope)
  simp only [run_bind_id, run_only, Option.bind_assoc] at hs
  rw [← build_meaning, Option.bind_assoc]
  refine Eq.trans ?_ (hs.trans ?_)
  · rw [evaluateTokens]
    change _ = Option.bind (((fixedBuilder results).takeAll scope {} ts).run : Except _ _).toOption _
    cases ((fixedBuilder results).takeAll scope {} ts).run <;> rfl
  · congr 1
    funext x
    exact x.result?_eq.symm

/-- `A` is a value and `B` a scope with a value of its own. -/
def valueAndScope : Results Bool
  | false, "A" => some (.value (.ok (.bool false)))
  | false, "B" => some (.scope true)
  | true, "Flag" => some (.value (.ok (.bool true)))
  | _, _ => none

end FormulaGraph
