import FormulaGraph.Proofs.Meaning
import FormulaGraph.Proofs.Accepting

/-! Formulas without a scope. Reading one comes to the value of its tree, where names stand for constants
only. -/

namespace FormulaGraph

variable {v : Value} {e : Expr} {ts : List Token}

/-- A scope that holds nothing. -/
def noResults : Results Unit := fun _ _ => none

def Entry.operand? (x : Entry Value Unit) : Option (Found Value Unit) := some x.operand

def Entry.value? (x : Entry Value Unit) : Option Value := x.operand.value?

theorem value_calculated (operation : Operation) (operands : List Value) (offset : Nat) :
    Option.bind (valueBuilder.calculated operation operands offset).run Entry.operand? =
      (operation.value? operands).bind fun v => some (.value v) := by
  simp only [Builder.calculated, run_bind_id, run_liftM, run_map_id, Option.bind_some, valueBuilder]
  simp only [applyAt, Operation.value?]
  cases operation.apply operands <;> rfl

theorem valueBuilder_kind (v : Value) : valueBuilder.kind v = .ok v.kind := rfl

theorem value_only (x : Entry Value Unit) : (x.only : OptionT Id _).run = x.value? := by
  obtain ⟨operand, _, _⟩ := x
  cases operand <;> rfl

theorem value_onlyValues (entries : List (Entry Value Unit)) :
    (onlyValues entries : OptionT Id _).run = entries.mapM Entry.value? := by
  have h := toOption_takeValues entries []
  simp only [List.reverse_nil, List.nil_append, Option.map_id'] at h
  rw [onlyValues]
  refine Eq.trans ?_ h
  cases takeValues entries [] <;> rfl

theorem Entry.operand?_bind {β : Type} (x : Entry Value Unit) (f : Value → Option β) :
    (x.operand?.bind fun found => found.value?.bind f) = x.value?.bind f := rfl

mutual

theorem build_value (e : Expr) :
    Option.bind (valueBuilder.build () e).run Entry.operand? = e.meaning noResults () := by
  cases e with
  | number digits suffix offset =>
    simp only [Builder.build, Expr.meaning]
    cases readNumber? digits.toList with
    | none => rfl
    | some x =>
      cases suffix with
      | none => rfl
      | some suffix => exact value_calculated (.convert suffix) [.scalar x] offset
  | text contents offset => rfl
  | name word offset =>
    simp only [Builder.build, Expr.meaning, Builder.named]
    split
    · rfl
    · split
      · rfl
      · cases h : namedConstant? word <;> rfl
  | group inner =>
    simp only [Builder.build, Expr.meaning]
    exact build_value inner
  | call word arguments offset =>
    simp only [Builder.build, Expr.meaning]
    cases Builtin.ofName? word with
    | none => rfl
    | some f =>
      simp only [run_bind_id, value_onlyValues, Option.bind_eq_bind, Option.bind_some]
      rw [← build_values arguments]
      simp only [Option.bind_assoc, run_ite_id, Option.pure_def]
      congr 1
      funext xs
      congr 1
      funext values
      split
      · exact value_calculated (.builtin f) values offset
      next hf =>
        rw [builtin_value?_of_not_takes hf]
        rfl
  | field receiver word offset =>
    simp only [Builder.build, Expr.meaning, run_bind_id]
    rw [← build_value receiver]
    simp only [Option.bind_eq_bind, Option.bind_assoc]
    congr 1
    funext x
    simp only [Builder.member, Entry.operand?, Option.bind_some]
    cases x.operand with
    | list => rfl
    | scope inner => rfl
    | value v =>
      simp only [run_bind_id, run_liftM, run_map_id, Option.bind_some]
      simp only [valueBuilder_kind]
      cases v.kind.field? word with
      | none => rfl
      | some f => exact value_calculated (.field f) [v] offset
  | method receiver word arguments offset =>
    simp only [Builder.build, Expr.meaning, run_bind_id]
    rw [← build_value receiver]
    simp only [Option.bind_eq_bind, Option.bind_assoc]
    congr 1
    funext x
    rw [Entry.operand?_bind]
    simp only [Builder.methodOf, run_bind_id, value_only, Option.bind_assoc]
    congr 1
    funext v
    simp only [run_liftM, run_map_id, Option.bind_some]
    simp only [valueBuilder_kind]
    cases v.kind.method? word with
    | none => rfl
    | some f =>
      simp only [run_pure_id, Option.bind_some]
      rw [← build_values arguments]
      simp only [Option.bind_assoc, value_onlyValues, run_ite_id, Option.pure_def]
      congr 1
      funext xs
      congr 1
      funext values
      split
      · exact value_calculated (.method f) (v :: values) offset
      next hf =>
        rw [method_value?_of_ne hf]
        rfl
  | unary op operand offset =>
    simp only [Builder.build, Expr.meaning, run_bind_id, value_only]
    rw [← build_value operand]
    simp only [Option.bind_eq_bind, Option.bind_assoc, Entry.operand?_bind, value_calculated, Option.pure_def]
  | binary op l r offset =>
    simp only [Builder.build, Expr.meaning, run_bind_id, value_only]
    rw [← build_value l, ← build_value r]
    simp only [Option.bind_eq_bind, Option.bind_assoc, Entry.operand?_bind, value_calculated, Option.pure_def]
    congr 1
    funext x
    rw [Option.bind_comm x.value?]
    congr 1
    funext y
    rw [Option.bind_comm]

theorem build_values (es : List Expr) :
    (Option.bind (valueBuilder.buildAll () es).run fun xs => xs.mapM Entry.value?) =
      Expr.meanings noResults () es := by
  cases es with
  | nil => rfl
  | cons e es =>
    simp only [Builder.buildAll, Expr.meanings, run_bind_id]
    rw [← build_value e, ← build_values es]
    simp only [Option.bind_eq_bind, Option.bind_assoc, Entry.operand?_bind, Option.pure_def, run_pure_id,
      Option.bind_some, List.mapM_cons]
    congr 1
    funext x
    rw [Option.bind_comm]

end

theorem Returns.of_ok {α β : Type} {x : Parsing Id α β} {Q : β → Prop} {b : β} (h : Returns x Q)
    (hb : x.run = .ok b) : Q b := by
  obtain ⟨y, rfl⟩ := h
  rw [ExceptT.run_map] at hb
  change y.run.map Subtype.val = .ok b at hb
  cases hy : y.run with
  | error => rw [hy] at hb; cases hb
  | ok c =>
    rw [hy] at hb
    cases hb
    exact c.2

theorem toOption_takeAll (h : Spells 0 e ts) :
    (valueBuilder.takeAll () {} ts).run.toOption = (e.meaning noResults ()).bind Found.value? := by
  rw [← build_value, Option.bind_assoc]
  refine (congrArg OptionT.run (h.takeAll valueBuilder ())).trans ?_
  simp only [run_bind_id, value_only]
  rfl

theorem run_takeAll_iff_meaning (h : Spells 0 e ts) :
    (valueBuilder.takeAll () {} ts).run = .ok v ↔ e.meaning noResults () = some (.value v) := by
  rw [← toOption_eq_some, toOption_takeAll h, Option.bind_eq_some_iff]
  constructor
  · rintro ⟨found, hfound, hvalue⟩
    rw [hfound, Found.eq_of_value? hvalue]
  · exact fun hmeaning => ⟨_, hmeaning, rfl⟩

/-- A formula is evaluated with success when it spells a tree that has a value. -/
theorem evaluate_iff {formula : String} :
    evaluate formula = .ok v ↔
      ∃ ts e, tokenize formula = .ok ts ∧ Spells 0 e ts ∧ e.meaning noResults () = some (.value v) := by
  have hrun : ∀ ts, tokenize formula = .ok ts → (evaluate formula = .ok v ↔
      (valueBuilder.takeAll () {} ts).run = .ok v) := fun ts hts => by
    rw [evaluate, Builder.parse, hts]
    dsimp only
    cases (valueBuilder.takeAll () {} ts).run with
    | error failure => constructor <;> intro h <;> cases h
    | ok a => constructor <;> intro h <;> cases h <;> rfl
  constructor
  · intro h
    cases hts : tokenize formula with
    | error e =>
      rw [evaluate, Builder.parse, hts] at h
      cases h
    | ok ts =>
      have htaken := (hrun ts hts).mp h
      obtain ⟨e, hspells⟩ := (returns_takeAll valueBuilder () ts).of_ok htaken
      exact ⟨ts, e, rfl, hspells, (run_takeAll_iff_meaning hspells).mp htaken⟩
  · rintro ⟨ts, e, hts, hspells, hmeaning⟩
    exact (hrun ts hts).mpr ((run_takeAll_iff_meaning hspells).mpr hmeaning)

end FormulaGraph
