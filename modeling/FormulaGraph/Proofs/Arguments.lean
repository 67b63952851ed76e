import FormulaGraph.Proofs.Recalling

/-! Formulas that are accepted. Their tokens spell a tree of the grammar, and every call in it has as many
arguments as what it calls takes. -/

namespace FormulaGraph

mutual

/-- Whatever is called takes as many arguments as it is called with. A method is known by its name. -/
def Expr.Counted : Expr → Prop
  | .number .. | .text .. | .name .. => True
  | .group inner => inner.Counted
  | .call word arguments _ =>
    (∃ f, Builtin.ofName? word = some f ∧ f.takes arguments.length = true) ∧ Expr.AllCounted arguments
  | .field receiver .. => receiver.Counted
  | .method receiver word arguments _ =>
    (∃ f : Method, f.name = word ∧ arguments.length = f.arity) ∧ receiver.Counted ∧
      Expr.AllCounted arguments
  | .unary _ operand _ => operand.Counted
  | .binary _ left right _ => left.Counted ∧ right.Counted

def Expr.AllCounted : List Expr → Prop
  | [] => True
  | e :: es => e.Counted ∧ Expr.AllCounted es

end

variable {S α σ β : Type} {s : S} {b : Builder (StateM S) α σ} {scope : σ}

theorem Yields.trivial (x : OptionT (StateM S) β) : Yields x s fun _ _ => True :=
  fun _ _ _ => True.intro

/-- What is known already is still known when something has come of it. -/
theorem Yields.const {Q : Prop} (x : OptionT (StateM S) β) (h : Q) : Yields x s fun _ _ => Q :=
  fun _ _ _ => h

theorem length_of_takeValues {entries : List (Entry α σ)} {taken values : List α}
    (h : takeValues entries taken = .ok values) : values.length = taken.length + entries.length := by
  induction entries generalizing taken with
  | nil =>
    cases h
    rw [List.length_reverse, List.length_nil, Nat.add_zero]
  | cons x entries ih =>
    rw [takeValues] at h
    cases hx : x.operand with
    | value a =>
      rw [hx] at h
      have hlength := ih h
      rw [List.length_cons] at hlength ⊢
      omega
    | scope | list =>
      rw [hx] at h
      cases h

theorem onlyValues_length (entries : List (Entry α σ)) :
    Yields (onlyValues entries) s fun values _ => values.length = entries.length := by
  unfold onlyValues
  cases ht : takeValues entries [] with
  | error e => exact .failure
  | ok values =>
    have hlength := length_of_takeValues ht
    rw [List.length_nil, Nat.zero_add] at hlength
    exact .pure hlength

theorem methodOf_named (x : Entry α σ) (name : String) :
    Yields (b.methodOf x name) s fun (_, f) _ => f.name = name := by
  refine (Yields.trivial _).bind fun a s₁ _ => (Yields.trivial _).bind fun kind s₂ _ => ?_
  cases kind with
  | error e => exact .failure
  | ok kind =>
    dsimp only
    cases hf : kind.method? name with
    | none => exact .failure
    | some f => exact .pure (Kind.name_of_method? hf)

mutual

/-- A tree that is built is one whose calls are in order. -/
theorem build_counted (b : Builder (StateM S) α σ) (scope : σ) (e : Expr) (s : S) :
    Yields (b.build scope e) s fun _ _ => e.Counted := by
  cases e with
  | number | text | name => exact .const _ True.intro
  | group inner =>
    rw [Builder.build]
    exact build_counted b scope inner s
  | call name arguments offset =>
    rw [Builder.build]
    cases hf : Builtin.ofName? name with
    | none => exact .failure
    | some f =>
      refine (buildAll_counted b scope arguments s).bind fun xs s₁ ⟨hxs, hes⟩ => ?_
      refine (onlyValues_length xs).bind fun values s₂ hvalues => ?_
      by_cases htakes : f.takes values.length = true
      · rw [if_pos htakes]
        rw [hvalues, hxs] at htakes
        exact .const _ ⟨⟨f, hf, htakes⟩, hes⟩
      · rw [if_neg htakes]
        exact .failure
  | field receiver name offset =>
    rw [Builder.build]
    exact (build_counted b scope receiver s).bind fun x s₁ h => .const _ h
  | method receiver name arguments offset =>
    rw [Builder.build]
    refine (build_counted b scope receiver s).bind fun x s₁ hreceiver => ?_
    refine (methodOf_named x name).bind fun (a, f) s₂ hname => ?_
    refine (buildAll_counted b scope arguments s₂).bind fun xs s₃ ⟨hxs, hes⟩ => ?_
    refine (onlyValues_length xs).bind fun values s₄ hvalues => ?_
    by_cases harity : values.length = f.arity
    · rw [if_pos harity]
      exact .const _ ⟨⟨f, hname, hxs.symm.trans (hvalues.symm.trans harity)⟩, hreceiver, hes⟩
    · rw [if_neg harity]
      exact .failure
  | unary op operand offset =>
    rw [Builder.build]
    exact (build_counted b scope operand s).bind fun x s₁ h => .const _ h
  | binary op left right offset =>
    rw [Builder.build]
    refine (build_counted b scope left s).bind fun x s₁ hleft => ?_
    exact (build_counted b scope right s₁).bind fun y s₂ hright => .const _ ⟨hleft, hright⟩

theorem buildAll_counted (b : Builder (StateM S) α σ) (scope : σ) (es : List Expr) (s : S) :
    Yields (b.buildAll scope es) s fun xs _ => xs.length = es.length ∧ Expr.AllCounted es := by
  cases es with
  | nil =>
    rw [Builder.buildAll]
    exact .pure ⟨rfl, True.intro⟩
  | cons e es =>
    rw [buildAll_cons]
    refine (build_counted b scope e s).bind fun x s₁ he => ?_
    refine (buildAll_counted b scope es s₁).bind fun xs s₂ ⟨hxs, hes⟩ => .pure ⟨?_, he, hes⟩
    rw [List.length_cons, List.length_cons, hxs]

end

/-- Whatever names stand for, and whatever is built of them: the tokens of a formula that is accepted spell a
tree of the grammar, whose calls have as many arguments as they should. -/
theorem spells_of_parse {text : String} {s' : S} {a : α} (h : (b.parse scope text).run s = (.ok a, s')) :
    ∃ tokens e, tokenize text = .ok tokens ∧ Spells 0 e tokens ∧ e.Counted := by
  obtain ⟨tokens, htokens, hrun⟩ := (run_parse_ok_iff b scope text).mp h
  obtain ⟨e, hspells⟩ := (returns_takeAll b scope tokens).of_run hrun
  rw [run_takeAll_iff b scope hspells] at hrun
  have hcounted : Yields (b.build scope e >>= Entry.only) s fun _ _ => e.Counted :=
    (build_counted b scope e s).bind fun x s₁ he => .const _ he
  exact ⟨tokens, e, htokens, hspells, hcounted a s' hrun⟩

/-- A call within a call, and a method of what is called. -/
theorem spells_nested_calls :
    (({ records := #[{ owners := 1 }] } : Graph).parse 0 "max(-1, min(2, 3)).abs()").1.isOk = true ∧
      ∃ tokens e, tokenize "max(-1, min(2, 3)).abs()" = .ok tokens ∧ Spells 0 e tokens ∧ e.Counted := by
  have hok : (({ records := #[{ owners := 1 }] } : Graph).parse 0 "max(-1, min(2, 3)).abs()").1.isOk = true := by
    decide +kernel
  refine ⟨hok, ?_⟩
  rcases hr : ({ records := #[{ owners := 1 }] } : Graph).parse 0 "max(-1, min(2, 3)).abs()" with ⟨e | n, g⟩
  · rw [hr] at hok
    cases hok
  · exact spells_of_parse hr

end FormulaGraph
