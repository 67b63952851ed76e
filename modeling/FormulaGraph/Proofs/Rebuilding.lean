import FormulaGraph.Proofs.Interpreting
import FormulaGraph.Proofs.Rereading

/-! Building a formula once more. Where a tree that was built before has a value, its formula can be built
again and comes to the same value, whatever kinds its fields and methods were first looked up for. What the
graph is like when this is done may differ, as long as the nodes that the formula names have their values. -/

namespace FormulaGraph

open FormulaGraph.Graph

section

variable {S β γ : Type} {s : S} {Q : β → S → Prop} {P : γ → S → Prop}

/-- Something comes of it, and is as it should be. -/
def Produces (x : OptionT (StateM S) β) (s : S) (Q : β → S → Prop) : Prop :=
  ∃ b s', x.run.run s = (some b, s') ∧ Q b s'

theorem Produces.pure {b : β} (h : Q b s) : Produces (pure b) s Q := ⟨b, s, rfl, h⟩

theorem Produces.lift {x : StateM S β} (h : Q (x.run s).1 (x.run s).2) :
    Produces (liftM x : OptionT (StateM S) β) s Q := ⟨_, _, rfl, h⟩

theorem Produces.bind {x : OptionT (StateM S) γ} {f : γ → OptionT (StateM S) β} (hx : Produces x s P)
    (hf : ∀ c s', P c s' → Produces (f c) s' Q) : Produces (x >>= f) s Q := by
  obtain ⟨c, s₁, hrun, hc⟩ := hx
  obtain ⟨b, s₂, hrun', hb⟩ := hf c s₁ hc
  refine ⟨b, s₂, ?_, hb⟩
  rw [run_bind_option, hrun]
  exact hrun'

theorem Produces.mono {x : OptionT (StateM S) β} {Q' : β → S → Prop} (h : Produces x s Q)
    (hQ : ∀ b s', Q b s' → Q' b s') : Produces x s Q' := by
  obtain ⟨b, s', hrun, hb⟩ := h
  exact ⟨b, s', hrun, hQ b s' hb⟩

end

namespace Graph

/-- The node is alive and has kept the value, and it is one of those that may be counted on. -/
def Given (g : Graph) (Apart : NodeId → Prop) (n : NodeId) (v : Value) : Prop :=
  g.Has n v ∧ 0 < (g.cell n).owners ∧ Apart n

variable {g g' : Graph} {ext : List Hold} {Apart : NodeId → Prop} {n : NodeId} {v : Value}

theorem IsConstant.eq_of_given {value : Value} (h : g.IsConstant n value) (hs : g.Sound ext [])
    (hn : g.Given Apart n v) : v = value := by
  obtain ⟨hhas, hlive, -⟩ := hn
  obtain ⟨w, hw, hgiven⟩ := (hs.coherent.fresh n hlive hhas.1 List.not_mem_nil).value
  rw [given?, h.2] at hgiven
  rw [hhas.2] at hw
  exact Option.some.inj (hw.trans hgiven.symm)

theorem forall₂_given {operands : List NodeId} {values : List Value}
    (h : List.Forall₂ g.Has operands values) (hlive : ∀ m ∈ operands, 0 < (g.cell m).owners ∧ Apart m) :
    List.Forall₂ (g.Given Apart) operands values := by
  induction h with
  | nil => exact .nil
  | cons hfirst _ ih =>
    exact .cons ⟨hfirst, hlive _ List.mem_cons_self⟩ (ih fun k hk => hlive k (List.mem_cons_of_mem _ hk))

/-- The value of a calculation follows from those of its operands, which are alive and clean too. -/
theorem Calculates.operands {operation : Operation} {operands : List NodeId} {offset : Nat}
    (h : g.Calculates n operation operands offset) (hs : g.Sound ext [])
    (hapart : ∀ d ∈ g.dependencies n, Apart d) (hn : g.Given Apart n v) :
    ∃ values, operation.apply values = .ok v ∧ List.Forall₂ (g.Given Apart) operands values := by
  obtain ⟨-, tickets, hnode⟩ := h
  obtain ⟨hhas, hlive, -⟩ := hn
  obtain ⟨hclean, w, hw, hgiven⟩ := hs.coherent.fresh n hlive hhas.1 List.not_mem_nil
  have hdependencies : g.dependencies n = operands := congrArg Node.dependencies hnode
  rw [given?, hnode] at hgiven
  rw [hdependencies] at hclean hapart
  obtain ⟨values, hvalues, happly⟩ := Option.bind_eq_some_iff.mp hgiven
  rw [hhas.2] at hw
  obtain rfl := Option.some.inj hw
  refine ⟨values, toOption_eq_some.mp happly, ?_⟩
  exact forall₂_given (forall₂_of_mapM hvalues hclean) fun m hm =>
    ⟨hs.accounts.dependency_live hlive (hdependencies ▸ hm), hapart m hm⟩

end Graph

section

variable {read : Reader} {g s : Graph} {ext : List Hold} {Apart : NodeId → Prop} {At : Graph → Prop}
  {Val : Graph → NodeId → Value → Prop} {scope : RecordId} {n : NodeId} {v : Value}

/-- Later on while a formula is built, with every value that there was before. -/
def Later (At : Graph → Prop) (Val : Graph → NodeId → Value → Prop) (s s' : Graph) : Prop :=
  At s' ∧ ∀ n v, Val s n v → Val s' n v

theorem Later.refl (h : At s) : Later At Val s s := ⟨h, fun _ _ => id⟩

theorem Later.trans {s' s'' : Graph} (h : Later At Val s s') (h' : Later At Val s' s'') : Later At Val s s'' :=
  ⟨h'.1, fun n v hn => h'.2 n v (h.2 n v hn)⟩

theorem Gives.later {s' : Graph} {found : Found NodeId RecordId} {gave : Found Value RecordId}
    (h : Gives (Val s) found gave) (hl : Later At Val s s') : Gives (Val s') found gave :=
  h.imp hl.2

/-- What there is to know of the graphs in which a formula is built: names are looked up as in `g`, and every move
of a builder keeps the values there are. -/
structure Constructs (read : Reader) (g : Graph) (At : Graph → Prop) (Val : Graph → NodeId → Value → Prop) :
    Prop where
  records {s : Graph} : At s → s.records = g.records
  literal {s : Graph} (value : Value) : At s →
    Produces (liftM ((graphBuilder read).literal value)) s fun n s' => Later At Val s s' ∧ Val s' n value
  kind {s : Graph} {n : NodeId} {v : Value} : At s → Val s n v →
    Produces (liftM ((graphBuilder read).kind n)) s fun kind s' => kind = .ok v.kind ∧ Later At Val s s'
  calculated {s : Graph} {operation : Operation} {arguments : List NodeId} {values : List Value} {v : Value}
    (offset : Nat) : At s → List.Forall₂ (Val s) arguments values → operation.apply values = .ok v →
      Produces ((graphBuilder read).calculated operation arguments offset) s fun x s' =>
        Later At Val s s' ∧ Gives (Val s') x.operand (.value v)
  retain {s : Graph} (n : NodeId) : At s → Later At Val s (s.retain (.node n))

/-- Where a formula is built again, the nodes that it names have the values they had in `g`. -/
structure Rebuilds (read : Reader) (g : Graph) (Apart : NodeId → Prop) (At : Graph → Prop)
    (Val : Graph → NodeId → Value → Prop) : Prop extends Constructs read g At Val where
  apart {n d : NodeId} : Apart n → d ∈ g.dependencies n → Apart d
  named {s : Graph} {r : RecordId} {name : String} {n : NodeId} {v : Value} : At s →
    0 < (g.record r).owners → g.resolve? r name = some (.node n) → g.Given Apart n v → Val s n v

namespace Constructs

theorem resolve (hb : Constructs read g At Val) (hs : At s) (name : String) :
    Produces (liftM ((graphBuilder read).resolve scope name)) s fun found s' =>
      found = (g.resolve? scope name).map Member.found ∧ Later At Val s s' := by
  rw [← resolve?_of_records (hb.records hs) scope name]
  refine .lift ?_
  rw [run_resolve]
  rcases s.resolve? scope name with _ | ⟨n | r | items⟩
  · exact ⟨rfl, .refl hs⟩
  · exact ⟨rfl, hb.retain n hs⟩
  · exact ⟨rfl, .refl hs⟩
  · exact ⟨rfl, .refl hs⟩

end Constructs

theorem takeValues_of_gives {entries : List (Entry NodeId RecordId)} {values : List Value}
    (h : List.Forall₂ (fun x v => Gives (Val s) x.operand (.value v)) entries values) (taken : List NodeId) :
    ∃ nodes, takeValues entries taken = .ok (taken.reverse ++ nodes) ∧ List.Forall₂ (Val s) nodes values := by
  induction h generalizing taken with
  | nil => exact ⟨[], by rw [takeValues, List.append_nil], .nil⟩
  | @cons x v entries values hfirst hrest ih =>
    obtain ⟨n, hn, hval⟩ := hfirst.of_value
    obtain ⟨nodes, htaken, hnodes⟩ := ih (n :: taken)
    refine ⟨n :: nodes, ?_, .cons hval hnodes⟩
    rw [takeValues, hn]
    dsimp only
    rw [htaken, List.reverse_cons, List.append_assoc]
    rfl

theorem onlyValues_produces {entries : List (Entry NodeId RecordId)} {values : List Value}
    (h : List.Forall₂ (fun x v => Gives (Val s) x.operand (.value v)) entries values) :
    Produces (onlyValues entries) s fun nodes s' => s' = s ∧ List.Forall₂ (Val s) nodes values := by
  obtain ⟨nodes, htaken, hnodes⟩ := takeValues_of_gives h []
  unfold onlyValues
  rw [htaken]
  exact .pure ⟨rfl, hnodes⟩

theorem only_produces {x : Entry NodeId RecordId} (h : Gives (Val s) x.operand (.value v)) :
    Produces x.only s fun n s' => s' = s ∧ Val s n v := by
  obtain ⟨n, hn, hval⟩ := h.of_value
  unfold Entry.only
  rw [hn]
  exact .pure ⟨rfl, hval⟩

namespace Constructs

/-- A name is looked up as before. -/
theorem named (hb : Constructs read g At Val) (hs : At s) (name : String) (offset : Nat)
    {Q : Entry NodeId RecordId → Graph → Prop}
    (hbool : ∀ b n s', boolNamed? name = some b → Later At Val s s' → Val s' n (.bool b) →
      Q ⟨.value n, offset, name⟩ s')
    (hresolved : ∀ member s', boolNamed? name = none → g.resolve? scope name = some member → Later At Val s s' →
      Q ⟨member.found, offset, name⟩ s')
    (hconstant : boolNamed? name = none → g.resolve? scope name = none →
      ∃ value, namedConstant? name = some value ∧
        ∀ n s', Later At Val s s' → Val s' n value → Q ⟨.value n, offset, name⟩ s') :
    Produces ((graphBuilder read).named scope name offset) s Q := by
  unfold Builder.named
  by_cases ht : name = "true"
  · rw [if_pos ht]
    exact (hb.literal (.bool true) hs).bind fun n s' ⟨hl, hn⟩ => .pure (hbool true n s' (if_pos ht) hl hn)
  · by_cases hf : name = "false"
    · rw [if_neg ht, if_pos hf]
      exact (hb.literal (.bool false) hs).bind fun n s' ⟨hl, hn⟩ =>
        .pure (hbool false n s' ((if_neg ht).trans (if_pos hf)) hl hn)
    · have hnone : boolNamed? name = none := (if_neg ht).trans (if_neg hf)
      rw [if_neg ht, if_neg hf]
      refine (hb.resolve hs name).bind fun found s' ⟨hfound, hl⟩ => ?_
      cases hr : g.resolve? scope name with
      | some member =>
        rw [hr] at hfound
        subst hfound
        exact .pure (hresolved member s' hnone hr hl)
      | none =>
        rw [hr] at hfound
        subst hfound
        obtain ⟨value, hc, hQ⟩ := hconstant hnone hr
        rw [hc]
        exact (hb.literal value hl.1).bind fun n s'' ⟨hl', hn⟩ => .pure (hQ n s'' (hl.trans hl') hn)

theorem methodOf (hb : Constructs read g At Val) (hs : At s) {x : Entry NodeId RecordId} {w : Value}
    {name : String} {f : Method} (h : Gives (Val s) x.operand (.value w)) (hf : w.kind.method? name = some f) :
    Produces ((graphBuilder read).methodOf x name) s fun (n, m) s' =>
      m = f ∧ Later At Val s s' ∧ Val s' n w := by
  refine (only_produces h).bind fun n s₁ ⟨hsame, hn⟩ => ?_
  subst hsame
  refine (hb.kind hs hn).bind fun kind s₂ ⟨hkind, hl⟩ => ?_
  subst hkind
  dsimp only
  rw [hf]
  exact .pure ⟨rfl, hl, hl.2 n w hn⟩

end Constructs

end

section

variable {read : Reader} {g : Graph} {ext : List Hold} {Apart : NodeId → Prop} {At : Graph → Prop}
  {Val : Graph → NodeId → Value → Prop} {Known : NodeId → Value → Prop} {results : Results RecordId}
  {scope : RecordId}

/-- The nodes that a formula may name have the values that are known. -/
structure Recalls (g : Graph) (Known : NodeId → Value → Prop) (At : Graph → Prop)
    (Val : Graph → NodeId → Value → Prop) : Prop where
  named {s : Graph} {r : RecordId} {name : String} {n : NodeId} {v : Value} : At s →
    0 < (g.record r).owners → g.resolve? r name = some (.node n) → Known n v → Val s n v

theorem Recalls.gives (hrecalls : Recalls g Known At Val) {s : Graph} (hs : At s)
    (hr : 0 < (g.record scope).owners) {name : String} {member : Member} {gave : Found Value RecordId}
    (hm : g.resolve? scope name = some member) (hgave : Gives Known member.found gave) :
    Gives (Val s) member.found gave := by
  cases member with
  | node n =>
    obtain ⟨v, rfl, hknown⟩ := hgave.value
    exact hrecalls.named hs hr hm hknown
  | record | list =>
    cases gave with
    | scope | list => exact hgave
    | value => exact hgave.elim

theorem Constructs.of_meaning_name (hb : Constructs read g At Val) (hrecalls : Recalls g Known At Val)
    (hanswers : g.Answers Known results) (hr : 0 < (g.record scope).owners) {name : String} {offset : Nat}
    {gave : Found Value RecordId} {s : Graph} (hs : At s)
    (h : (Expr.name name offset).meaning results scope = some gave) :
    Produces ((graphBuilder read).named scope name offset) s fun x s' =>
      Later At Val s s' ∧ Gives (Val s') x.operand gave := by
  rw [Expr.meaning_name] at h
  refine hb.named hs name offset (fun b n s' hbool hl hn => ?_) (fun member s' hbool hm hl => ?_)
    fun hbool hm => ?_
  · rw [hbool] at h
    cases h
    exact ⟨hl, hn⟩
  · obtain ⟨found, hfound, hread⟩ := hanswers.present hr hm
    rw [hbool, hfound] at h
    exact ⟨hl, hrecalls.gives hl.1 hr hm ((hread gave).mp h)⟩
  · rw [hbool, hanswers.missing hr hm] at h
    obtain ⟨value, hc, rfl⟩ := Option.map_eq_some_iff.mp h
    exact ⟨value, hc, fun n s' hl hn => ⟨hl, hn⟩⟩

mutual

/-- A tree that means something is built into what means the same. What has been built of it keeps its value
while the rest is built. -/
theorem Constructs.of_meaning (hb : Constructs read g At Val) (hrecalls : Recalls g Known At Val)
    (hanswers : g.Answers Known results) (ha : g.Accounts ext) (hr : 0 < (g.record scope).owners) (e : Expr)
    {gave : Found Value RecordId} {s : Graph} (hs : At s) (h : e.meaning results scope = some gave) :
    Produces ((graphBuilder read).build scope e) s fun x s' =>
      Later At Val s s' ∧ Gives (Val s') x.operand gave := by
  cases e with
  | number digits suffix offset =>
    rw [Builder.build]
    cases hx : readNumber? digits.toList with
    | none => simp [Expr.meaning, hx] at h
    | some x =>
      refine (hb.literal _ hs).bind fun n s' ⟨hl, hn⟩ => ?_
      cases suffix with
      | none =>
        simp only [Expr.meaning, hx] at h
        cases h
        exact .pure ⟨hl, hn⟩
      | some suffix =>
        simp only [Expr.meaning, hx, Option.bind_eq_bind, Option.bind_some, Option.bind_eq_some_iff] at h
        obtain ⟨v, hv, he⟩ := h
        cases he
        exact (hb.calculated offset hl.1 (.cons hn .nil) (Operation.value?_eq_some_iff.mp hv)).mono
          fun x s'' ⟨hl', hx'⟩ => ⟨hl.trans hl', hx'⟩
  | text contents offset =>
    rw [Builder.build]
    cases h
    exact (hb.literal _ hs).bind fun n s' ⟨hl, hn⟩ => .pure ⟨hl, hn⟩
  | name name offset =>
    rw [Builder.build]
    exact hb.of_meaning_name hrecalls hanswers hr hs h
  | group inner =>
    rw [Builder.build]
    rw [Expr.meaning] at h
    exact hb.of_meaning hrecalls hanswers ha hr inner hs h
  | call name arguments offset =>
    rw [Builder.build]
    simp only [Expr.meaning, Option.bind_eq_bind, Option.bind_eq_some_iff] at h
    obtain ⟨f, hf, values, hvalues, v, hv, he⟩ := h
    cases he
    rw [hf]
    refine (hb.of_meanings hrecalls hanswers ha hr arguments hs hvalues).bind fun xs s₁ ⟨hl₁, hxs⟩ => ?_
    refine (onlyValues_produces hxs).bind fun nodes s₂ ⟨hsame, hnodes⟩ => ?_
    subst hsame
    have happly := Operation.value?_eq_some_iff.mp hv
    have htakes := takes_of_call (Operation.perform_of_apply happly).1
    rw [← hnodes.length_eq] at htakes
    rw [if_pos htakes]
    exact (hb.calculated offset hl₁.1 hnodes happly).mono fun x s₃ ⟨hl₃, hx⟩ => ⟨hl₁.trans hl₃, hx⟩
  | field receiver name offset =>
    rw [Builder.build]
    simp only [Expr.meaning, Option.bind_eq_bind, Option.bind_eq_some_iff] at h
    obtain ⟨found, hfound, h⟩ := h
    refine (hb.of_meaning hrecalls hanswers ha hr receiver hs hfound).bind fun x s₁ ⟨hl₁, hx⟩ => ?_
    cases found with
    | value w =>
      simp only [Option.bind_eq_some_iff] at h
      obtain ⟨f, hfield, v, hv, he⟩ := h
      cases he
      obtain ⟨n, hn, hval⟩ := hx.of_value
      unfold Builder.member
      rw [hn]
      refine (hb.kind hl₁.1 hval).bind fun kind s₂ ⟨hkind, hl₂⟩ => ?_
      subst hkind
      dsimp only
      rw [hfield]
      exact (hb.calculated offset hl₂.1 (.cons (hl₂.2 _ _ hval) .nil) (Operation.value?_eq_some_iff.mp hv)).mono
        fun y s₃ ⟨hl₃, hy⟩ => ⟨(hl₁.trans hl₂).trans hl₃, hy⟩
    | scope inner =>
      unfold Builder.member
      rw [hx.of_scope]
      have hinner := hanswers.scope_live ha hr receiver hfound
      refine (hb.resolve hl₁.1 name).bind fun found s₂ ⟨hfound, hl₂⟩ => ?_
      cases hm : g.resolve? inner name with
      | none =>
        dsimp only at h
        rw [hanswers.missing hinner hm] at h
        cases h
      | some member =>
        rw [hm] at hfound
        subst hfound
        exact .pure ⟨hl₁.trans hl₂, hrecalls.gives hl₂.1 hinner hm ((hanswers.read? hinner hm).mp h)⟩
    | list => cases h
  | method receiver name arguments offset =>
    rw [Builder.build]
    simp only [Expr.meaning, Option.bind_eq_bind, Option.bind_eq_some_iff] at h
    obtain ⟨found, hfound, w, hw, f, hmethod, values, hvalues, v, hv, he⟩ := h
    cases he
    rw [Found.eq_of_value? hw] at hfound
    refine (hb.of_meaning hrecalls hanswers ha hr receiver hs hfound).bind fun x s₁ ⟨hl₁, hx⟩ => ?_
    refine (hb.methodOf hl₁.1 hx hmethod).bind fun (n, m) s₂ ⟨hm, hl₂, hval⟩ => ?_
    subst hm
    refine (hb.of_meanings hrecalls hanswers ha hr arguments hl₂.1 hvalues).bind fun xs s₃ ⟨hl₃, hxs⟩ => ?_
    refine (onlyValues_produces hxs).bind fun nodes s₄ ⟨hsame, hnodes⟩ => ?_
    subst hsame
    have happly := Operation.value?_eq_some_iff.mp hv
    obtain ⟨-, harity⟩ := method?_of_call (Operation.perform_of_apply happly).1
    rw [← hnodes.length_eq] at harity
    rw [if_pos harity]
    exact (hb.calculated offset hl₃.1 (.cons (hl₃.2 _ _ hval) hnodes) happly).mono
      fun y s₅ ⟨hl₅, hy⟩ => ⟨((hl₁.trans hl₂).trans hl₃).trans hl₅, hy⟩
  | unary op operand offset =>
    rw [Builder.build]
    simp only [Expr.meaning, Option.bind_eq_bind, Option.bind_eq_some_iff] at h
    obtain ⟨found, hfound, w, hw, v, hv, he⟩ := h
    cases he
    rw [Found.eq_of_value? hw] at hfound
    refine (hb.of_meaning hrecalls hanswers ha hr operand hs hfound).bind fun x s₁ ⟨hl₁, hx⟩ => ?_
    refine (only_produces hx).bind fun n s₂ ⟨hsame, hn⟩ => ?_
    subst hsame
    exact (hb.calculated offset hl₁.1 (.cons hn .nil) (Operation.value?_eq_some_iff.mp hv)).mono
      fun y s₃ ⟨hl₃, hy⟩ => ⟨hl₁.trans hl₃, hy⟩
  | binary op left right offset =>
    rw [Builder.build]
    simp only [Expr.meaning, Option.bind_eq_bind, Option.bind_eq_some_iff] at h
    obtain ⟨found, hfound, w, hw, found', hfound', w', hw', v, hv, he⟩ := h
    cases he
    rw [Found.eq_of_value? hw] at hfound
    rw [Found.eq_of_value? hw'] at hfound'
    refine (hb.of_meaning hrecalls hanswers ha hr left hs hfound).bind fun x s₁ ⟨hl₁, hx⟩ => ?_
    refine (hb.of_meaning hrecalls hanswers ha hr right hl₁.1 hfound').bind fun y s₂ ⟨hl₂, hy⟩ => ?_
    refine (only_produces hy).bind fun c s₃ ⟨hsame, hc⟩ => ?_
    subst hsame
    refine (only_produces (hx.later hl₂)).bind fun a s₄ ⟨hsame, ha⟩ => ?_
    subst hsame
    exact (hb.calculated offset hl₂.1 (.cons ha (.cons hc .nil)) (Operation.value?_eq_some_iff.mp hv)).mono
      fun z s₅ ⟨hl₅, hz⟩ => ⟨(hl₁.trans hl₂).trans hl₅, hz⟩

theorem Constructs.of_meanings (hb : Constructs read g At Val) (hrecalls : Recalls g Known At Val)
    (hanswers : g.Answers Known results) (ha : g.Accounts ext) (hr : 0 < (g.record scope).owners) (es : List Expr)
    {values : List Value} {s : Graph} (hs : At s) (h : Expr.meanings results scope es = some values) :
    Produces ((graphBuilder read).buildAll scope es) s fun xs s' =>
      Later At Val s s' ∧ List.Forall₂ (fun x v => Gives (Val s') x.operand (.value v)) xs values := by
  cases es with
  | nil =>
    cases h
    rw [Builder.buildAll]
    exact .pure ⟨.refl hs, .nil⟩
  | cons e es =>
    simp only [Expr.meanings, Option.bind_eq_bind, Option.bind_eq_some_iff] at h
    obtain ⟨found, hfound, v, hv, values, hvalues, he⟩ := h
    cases he
    rw [Found.eq_of_value? hv] at hfound
    rw [buildAll_cons]
    refine (hb.of_meaning hrecalls hanswers ha hr e hs hfound).bind fun x s₁ ⟨hl₁, hx⟩ => ?_
    refine (hb.of_meanings hrecalls hanswers ha hr es hl₁.1 hvalues).bind fun xs s₂ ⟨hl₂, hxs⟩ => .pure ?_
    exact ⟨hl₁.trans hl₂, .cons (hx.later hl₂) hxs⟩

end

theorem Rebuilds.derives (hb : Rebuilds read g Apart At Val) (hg : g.Sound ext []) :
    g.Derives (g.Given Apart) where
  constant hn hgiven := hn.eq_of_given hg hgiven
  operands h hgiven := by
    obtain ⟨values, happly, hvalues⟩ := h.operands hg (fun _ hd => hb.apart hgiven.2.2 hd) hgiven
    exact ⟨values, Operation.value?_eq_some_iff.mpr happly, hvalues⟩

/-- What has a value is built again into what has the same value. -/
theorem Rebuilds.rebuild (hb : Rebuilds read g Apart At Val) (hg : g.Sound ext []) {scope : RecordId}
    (hr : 0 < (g.record scope).owners) (e : Expr) {found : Found NodeId RecordId} {gave : Found Value RecordId}
    {s : Graph} (hs : At s) (h : g.Built scope e found) (hgave : Gives (g.Given Apart) found gave) :
    Produces ((graphBuilder read).build scope e) s fun x s' =>
      Later At Val s s' ∧ Gives (Val s') x.operand gave := by
  have hunique : ∀ n v w, g.Given Apart n v → g.Given Apart n w → v = w := fun n v w hv hw =>
    Option.some.inj (hv.1.2.symm.trans hw.1.2)
  obtain ⟨results, hanswers⟩ := g.exists_answers hunique
  exact hb.toConstructs.of_meaning ⟨hb.named⟩ hanswers hg.accounts hr e hs
    (h.meaning hanswers (hb.derives hg) hg.accounts hr e hgave)

/-- What a formula only names, it names again, whether it has a value or not. -/
theorem Rebuilds.rebuild_named (hb : Rebuilds read g Apart At Val) (hg : g.Sound ext []) {scope : RecordId}
    (hr : 0 < (g.record scope).owners) {e : Expr} {n : NodeId} {s : Graph} (hs : At s) (h : g.Named scope e n) :
    Produces ((graphBuilder read).build scope e) s fun x s' => At s' ∧ x.operand = .value n := by
  induction h with
  | @name name offset n hbool hm =>
    rw [Builder.build]
    refine hb.toConstructs.named hs name offset (fun b n s' hb' => ?_) (fun member s' _ hm' hl => ?_) fun _ hm' => ?_
    · rw [hbool] at hb'
      cases hb'
    · rw [hm] at hm'
      cases hm'
      exact ⟨hl.1, rfl⟩
    · rw [hm] at hm'
      cases hm'
  | @member e name offset inner n h hm =>
    have hinner : Gives (g.Given Apart) (.scope inner) (.scope inner) := rfl
    rw [Builder.build]
    refine (hb.rebuild hg hr e hs h hinner).bind fun x s₁ ⟨hl₁, hx⟩ => ?_
    unfold Builder.member
    rw [hx.of_scope]
    refine (hb.resolve hl₁.1 name).bind fun found s₂ ⟨hfound, hl₂⟩ => ?_
    rw [hm] at hfound
    subst hfound
    exact .pure ⟨hl₂.1, rfl⟩
  | group h ih =>
    rw [Builder.build]
    exact ih

end

section

variable {g s : Graph} {n : NodeId} {v : Value}

theorem Graph.Alters.grows {g₀ : Graph} (h : g.Alters n s) (hg : g₀.Grows g) (hn : g₀.cells.size ≤ n) :
    g₀.Grows s := by
  have hcell : ∀ m, m < g₀.cells.size → s.cell m = g.cell m :=
    fun m hm => h.cell m (Nat.ne_of_lt (Nat.lt_of_lt_of_le hm hn))
  refine ⟨h.records.trans hg.records, Nat.le_trans hg.size (Nat.le_of_eq h.size.symm), fun m hP hm => ?_,
    fun m hP hm hor => ?_, fun m hP hm he => ?_, fun m hP hm hc => ?_, fun m hP hm => ?_⟩
  · rw [hcell m hm]
    exact hg.evaluating m hP hm
  · rw [Graph.node, hcell m hm]
    exact hg.node m hP hm hor
  · rw [hcell m hm]
    exact hg.busy m hP hm he
  · rw [hcell m hm]
    exact hg.clean m hP hm hc
  · rw [Graph.node, hcell m hm]
    exact hg.frame m hP hm

theorem grows_addCalculation (g : Graph) (operation : Operation) (operands : List NodeId) (offset : Nat) :
    g.Grows (g.addCalculation operation operands offset).2 :=
  (grows_subscribeAll operands _).2.trans (grows_addCell _ _)

theorem calculated_of_has {operation : Operation} {arguments : List NodeId} {values : List Value}
    (hvalues : List.Forall₂ s.Has arguments values) (hv : operation.apply values = .ok v) (offset : Nat) :
    Produces ((graphBuilder readNode).calculated operation arguments offset) s fun x s' =>
      s.Grows s' ∧ Gives s'.Has x.operand (.value v) := by
  obtain ⟨hn, hsize, tickets, hcell⟩ := node_addCalculation s operation arguments offset
  have hgrows := grows_addCalculation s operation arguments offset
  have hrun := run_calculate readNode operation arguments offset s
  generalize s.addCalculation operation arguments offset = added at hn hsize hcell hgrows hrun
  obtain ⟨n, s₁⟩ := added
  dsimp only at hn hsize hcell hgrows hrun
  subst hn
  obtain ⟨s', hread, halters, hhas⟩ := run_readNode_of_clean (v := v) (by omega : s.cells.size < s₁.cells.size)
    (by rw [hcell]) (by rw [hcell]) (by rw [Graph.node, hcell]) (hvalues.imp fun _ _ h => h.grows hgrows) hv
  rw [hread] at hrun
  refine Produces.bind (P := fun r s' => r = .ok s.cells.size ∧ s.Grows s' ∧ s'.Has s.cells.size v)
    (.lift ?_) fun r s' h => ?_
  · rw [hrun]
    exact ⟨rfl, halters.grows hgrows (Nat.le_refl _), hhas⟩
  · obtain ⟨rfl, hgrows, hhas⟩ := h
    exact .pure ⟨hgrows, hhas⟩

theorem later_of_grows (h : g.Grows s) {s' : Graph} (hs : s.Grows s') : Later g.Grows Has s s' :=
  ⟨h.trans hs, fun _ _ hn => hn.grows hs⟩

/-- Where nothing has been changed since, all values are those that were kept. -/
theorem rebuilds_of_grows (g : Graph) : Rebuilds readNode g (fun _ => True) g.Grows Has where
  apart _ _ := trivial
  records hs := hs.records
  named hs _ _ hgiven := hgiven.1.grows hs
  literal {s} value hs := by
    refine .lift ⟨later_of_grows hs (grows_addCell _ _), ?_⟩
    show (s.addCell (.constant value) (some value)).2.Has s.cells.size value
    rw [Has, cell_addCell, if_pos rfl]
    exact ⟨rfl, rfl⟩
  kind {s n v} hs hn := by
    have hrun : ((graphBuilder readNode).kind n).run s = (.ok v.kind, s) := by
      unfold graphBuilder
      dsimp only
      rw [StateT.run_bind, run_readNode_of_has hn]
      rfl
    refine .lift ?_
    rw [hrun]
    exact ⟨rfl, .refl hs⟩
  calculated offset hs hvalues hv :=
    (calculated_of_has hvalues hv offset).mono fun x s' ⟨hgrows, hx⟩ => ⟨later_of_grows hs hgrows, hx⟩
  retain n hs := later_of_grows hs grows_retain_node

end

end FormulaGraph
