import FormulaGraph.Proofs.Assembling
import FormulaGraph.Proofs.Meaning
import FormulaGraph.Proofs.Recalling

/-! The meaning of a tree that has been built. If names stand for the values of the nodes that they name, the
tree means what the node for it has as its value, whatever kinds its fields and methods were looked up for. -/

namespace FormulaGraph

open FormulaGraph.Graph

section

variable {v w : Value} {values : List Value}

theorem field?_of_read {f : Field} (h : f.read w = .ok v) : w.kind.field? f.name = some f := by
  cases f with
  | inUnit unit =>
    cases w with
    | quantity q => cases unit <;> rfl
    | _ => cases h
  | _ =>
    cases w with
    | _ => first | rfl | cases h

theorem method?_of_call {f : Method} (h : f.call w values = .ok v) :
    w.kind.method? f.name = some f ∧ values.length = f.arity := by
  unfold Method.call at h
  by_cases harity : values.length = f.arity
  · refine ⟨?_, harity⟩
    rw [if_pos harity] at h
    cases f with
    | _ =>
      cases w with
      | _ => first | rfl | cases h
  · rw [if_neg harity] at h
    cases h

theorem takes_of_call {f : Builtin} (h : f.call values = .ok v) : f.takes values.length = true := by
  unfold Builtin.call at h
  by_cases ht : f.takes values.length = true
  · exact ht
  · rw [if_neg ht] at h
    cases h

theorem Operation.value?_eq_some_iff {operation : Operation} :
    operation.value? values = some v ↔ operation.apply values = .ok v := toOption_eq_some

end

def Found.map {α β σ : Type} (f : α → β) : Found α σ → Found β σ
  | .value a => .value (f a)
  | .scope s => .scope s
  | .list => .list

/-- What is found has this value, or is this scope. -/
def Gives (Val : NodeId → Value → Prop) : Found NodeId RecordId → Found Value RecordId → Prop
  | .value n, .value v => Val n v
  | .scope r, .scope r' => r = r'
  | .list, .list => True
  | _, _ => False

section

variable {Val Val' : NodeId → Value → Prop} {found : Found NodeId RecordId} {gave : Found Value RecordId}
  {n : NodeId} {v : Value}

theorem Gives.imp (h : Gives Val found gave) (hval : ∀ n v, Val n v → Val' n v) : Gives Val' found gave := by
  unfold Gives at h ⊢
  split at h
  · exact hval _ _ h
  · exact h
  · trivial
  · exact h.elim

theorem Gives.value (h : Gives Val (.value n) gave) : ∃ v, gave = .value v ∧ Val n v := by
  cases gave with
  | value v => exact ⟨v, rfl, h⟩
  | scope | list => exact h.elim

theorem Gives.of_value (h : Gives Val found (.value v)) : ∃ n, found = .value n ∧ Val n v := by
  cases found with
  | value n => exact ⟨n, rfl, h⟩
  | scope | list => exact h.elim

theorem Gives.of_scope {r : RecordId} (h : Gives Val found (.scope r)) : found = .scope r := by
  cases found with
  | scope r' => exact congrArg Found.scope h
  | value | list => exact h.elim

end

theorem Expr.meaning_name (results : Results RecordId) (scope : RecordId) (name : String) (offset : Nat) :
    (Expr.name name offset).meaning results scope =
      match boolNamed? name with
      | some b => some (.value (.bool b))
      | none =>
        match results scope name with
        | some found => found.read?
        | none => (namedConstant? name).map .value := by
  rw [Expr.meaning, boolNamed?]
  by_cases ht : name = "true"
  · rw [if_pos ht, if_pos ht]
  · by_cases hfalse : name = "false"
    · rw [if_neg ht, if_neg ht, if_pos hfalse, if_pos hfalse]
    · rw [if_neg ht, if_neg ht, if_neg hfalse, if_neg hfalse]
      cases results scope name <;> rfl

namespace Graph

/-- What names stand for if nodes have these results. -/
def results (g : Graph) (result : NodeId → Checked Value) : Results RecordId := fun r name =>
  (g.resolve? r name).map fun member => member.found.map result

/-- Names stand for what they are looked up to be in `g`, and nodes for the values that they have. -/
structure Answers (g : Graph) (Val : NodeId → Value → Prop) (results : Results RecordId) : Prop where
  missing {r : RecordId} {name : String} : 0 < (g.record r).owners → g.resolve? r name = none → results r name = none
  present {r : RecordId} {name : String} {member : Member} : 0 < (g.record r).owners →
    g.resolve? r name = some member →
      ∃ found, results r name = some found ∧ ∀ gave, found.read? = some gave ↔ Gives Val member.found gave

/-- Constants have the value that they are of, and calculations have one that follows from their operands. -/
structure Derives (g : Graph) (Val : NodeId → Value → Prop) : Prop where
  constant {n : NodeId} {value v : Value} : g.IsConstant n value → Val n v → v = value
  operands {n : NodeId} {operation : Operation} {operands : List NodeId} {offset : Nat} {v : Value} :
    g.Calculates n operation operands offset → Val n v →
      ∃ values, operation.value? values = some v ∧ List.Forall₂ Val operands values

variable {g : Graph} {ext : List Hold} {Val : NodeId → Value → Prop} {results : Results RecordId}
  {scope : RecordId} {a c n : NodeId} {operation : Operation} {offset : Nat} {v : Value}

theorem read?_map {result : NodeId → Checked Value} {found : Found NodeId RecordId}
    (h : ∀ n, found = .value n → ∀ v, result n = .ok v ↔ Val n v) (gave : Found Value RecordId) :
    (found.map result).read? = some gave ↔ Gives Val found gave := by
  cases found with
  | value n =>
    have hn := h n rfl
    rw [Found.map]
    cases hr : result n with
    | ok v =>
      refine ⟨fun he => ?_, fun hgave => ?_⟩
      · cases he
        exact (hn v).mp hr
      · obtain ⟨w, rfl, hw⟩ := hgave.value
        cases hr.symm.trans ((hn w).mpr hw)
        rfl
    | error e =>
      refine ⟨fun he => ?_, fun hgave => ?_⟩
      · cases he
      · obtain ⟨w, rfl, hw⟩ := hgave.value
        cases hr.symm.trans ((hn w).mpr hw)
  | scope r =>
    refine ⟨fun he => ?_, fun hgave => ?_⟩
    · cases he
      rfl
    · cases gave with
      | scope r' => exact congrArg (fun r => some (Found.scope r)) hgave
      | value | list => exact hgave.elim
  | list =>
    refine ⟨fun he => ?_, fun hgave => ?_⟩
    · cases he
      trivial
    · cases gave with
      | list => rfl
      | value | scope => exact hgave.elim

theorem answers_results {result : NodeId → Checked Value}
    (h : ∀ {r name n}, 0 < (g.record r).owners → g.resolve? r name = some (.node n) →
      ∀ v, result n = .ok v ↔ Val n v) : g.Answers Val (g.results result) where
  missing {r name} _ hm := by
    rw [results, hm]
    rfl
  present {r name member} hr hm := by
    refine ⟨member.found.map result, by rw [results, hm]; rfl, read?_map fun n hn => ?_⟩
    cases member with
    | node n' =>
      cases hn
      exact h hr hm
    | record | list => cases hn

/-- Where no node has two values, names can stand for them. -/
theorem exists_answers (g : Graph) (hunique : ∀ n v w, Val n v → Val n w → v = w) :
    ∃ results, g.Answers Val results := by
  have hresult : ∀ n, ∃ r : Checked Value, ∀ v, r = .ok v ↔ Val n v := fun n => by
    by_cases h : ∃ v, Val n v
    · obtain ⟨v, hv⟩ := h
      refine ⟨.ok v, fun w => ⟨fun he => ?_, fun hw => congrArg Except.ok (hunique n v w hv hw)⟩⟩
      cases he
      exact hv
    · refine ⟨.error { cause := .cycle, offset := 0 }, fun w => ⟨fun he => ?_, fun hw => absurd ⟨w, hw⟩ h⟩⟩
      cases he
  choose result hresult using hresult
  exact ⟨g.results result, answers_results fun {_ _ n} _ _ => hresult n⟩

theorem Derives.operand (hf : g.Derives Val) (h : g.Calculates n operation [a] offset) (hn : Val n v) :
    ∃ w, operation.value? [w] = some v ∧ Val a w := by
  obtain ⟨values, hv, hvalues⟩ := hf.operands h hn
  obtain ⟨w, ws, hw, hws, rfl⟩ := List.forall₂_cons_left_iff.mp hvalues
  rw [List.forall₂_nil_left_iff.mp hws] at hv
  exact ⟨w, hv, hw⟩

theorem Derives.receiver (hf : g.Derives Val) {operands : List NodeId}
    (h : g.Calculates n operation (a :: operands) offset) (hn : Val n v) :
    ∃ w values, operation.value? (w :: values) = some v ∧ Val a w ∧ List.Forall₂ Val operands values := by
  obtain ⟨values, hv, hvalues⟩ := hf.operands h hn
  obtain ⟨w, ws, hw, hws, rfl⟩ := List.forall₂_cons_left_iff.mp hvalues
  exact ⟨w, ws, hv, hw, hws⟩

theorem scope_of_found {member : Member} {r : RecordId} (h : member.found = .scope r) : member = .record r := by
  cases member with
  | record r' => exact congrArg Member.record (Found.scope.inj h)
  | node | list => cases h

/-- A scope that is found is alive. -/
theorem Built.scope_live {scope inner : RecordId} {found : Found NodeId RecordId} (ha : g.Accounts ext)
    (hr : 0 < (g.record scope).owners) (e : Expr) (h : g.Built scope e found) (hfound : found = .scope inner) :
    0 < (g.record inner).owners := by
  cases e with
  | name name offset =>
    cases h with
    | resolved hb hm => exact recordLive_of_resolve? ha hr (hm.trans (congrArg some (scope_of_found hfound)))
    | bool | constant => cases hfound
  | group e =>
    cases h with
    | group h => exact Built.scope_live ha hr e h hfound
  | field e name offset =>
    cases h with
    | member h hm =>
      exact recordLive_of_resolve? ha (Built.scope_live ha hr e h rfl)
        (hm.trans (congrArg some (scope_of_found hfound)))
    | field => cases hfound
  | _ =>
    cases h with
    | _ => cases hfound

theorem Answers.read? (hanswers : g.Answers Val results) (hr : 0 < (g.record scope).owners) {name : String}
    {member : Member} (hm : g.resolve? scope name = some member) {gave : Found Value RecordId} :
    (results scope name).bind Found.read? = some gave ↔ Gives Val member.found gave := by
  obtain ⟨found, hfound, hread⟩ := hanswers.present hr hm
  rw [hfound]
  exact hread gave

/-- A scope that a name is looked up to be is alive. -/
theorem Answers.scope_live_of_read? (hanswers : g.Answers Val results) (ha : g.Accounts ext)
    (hr : 0 < (g.record scope).owners) {name : String} {inner : RecordId}
    (h : (results scope name).bind Found.read? = some (.scope inner)) : 0 < (g.record inner).owners := by
  cases hm : g.resolve? scope name with
  | none =>
    rw [hanswers.missing hr hm] at h
    cases h
  | some member =>
    have hgave := (hanswers.read? hr hm).mp h
    exact recordLive_of_resolve? ha hr (hm.trans (congrArg some (scope_of_found hgave.of_scope)))

/-- A scope that a tree means is alive. -/
theorem Answers.scope_live (hanswers : g.Answers Val results) (ha : g.Accounts ext)
    (hr : 0 < (g.record scope).owners) (e : Expr) {inner : RecordId}
    (h : e.meaning results scope = some (.scope inner)) : 0 < (g.record inner).owners := by
  cases e with
  | name name offset =>
    rw [Expr.meaning_name] at h
    cases hb : boolNamed? name with
    | some b =>
      rw [hb] at h
      cases h
    | none =>
      rw [hb] at h
      dsimp only at h
      cases hfound : results scope name with
      | some found =>
        have hread : (results scope name).bind Found.read? = some (.scope inner) := by
          rw [hfound] at h ⊢
          exact h
        exact hanswers.scope_live_of_read? ha hr hread
      | none =>
        rw [hfound] at h
        obtain ⟨value, -, he⟩ := Option.map_eq_some_iff.mp h
        cases he
  | group e =>
    rw [Expr.meaning] at h
    exact hanswers.scope_live ha hr e h
  | field e name offset =>
    simp only [Expr.meaning, Option.bind_eq_bind, Option.bind_eq_some_iff] at h
    obtain ⟨found, hfound, h⟩ := h
    cases found with
    | value v => simp [Option.bind_eq_some_iff] at h
    | scope middle => exact hanswers.scope_live_of_read? ha (hanswers.scope_live ha hr e hfound) h
    | list => cases h
  | number digits suffix offset => cases suffix <;> simp [Expr.meaning, Option.bind_eq_some_iff] at h
  | text contents offset => cases h
  | call | method | unary | binary => simp [Expr.meaning, Option.bind_eq_some_iff] at h

theorem Answers.meaning_name (hanswers : g.Answers Val results) (hf : g.Derives Val)
    (hr : 0 < (g.record scope).owners) {name : String} {found : Found NodeId RecordId}
    {gave : Found Value RecordId} (h : g.Built scope (.name name offset) found) (hgave : Gives Val found gave) :
    (Expr.name name offset).meaning results scope = some gave := by
  cases h with
  | bool hb hn =>
    obtain ⟨v, rfl, hv⟩ := hgave.value
    obtain rfl := hf.constant hn hv
    rw [Expr.meaning_name, hb]
  | resolved hb hm =>
    obtain ⟨found, hfound, hread⟩ := hanswers.present hr hm
    rw [Expr.meaning_name, hb, hfound]
    exact (hread gave).mpr hgave
  | constant hb hm hc hn =>
    obtain ⟨v, rfl, hv⟩ := hgave.value
    obtain rfl := hf.constant hn hv
    rw [Expr.meaning_name, hb, hanswers.missing hr hm, hc]
    rfl

mutual

/-- The tree means what has been built of it. -/
theorem Built.meaning (hanswers : g.Answers Val results) (hf : g.Derives Val) (ha : g.Accounts ext)
    (hr : 0 < (g.record scope).owners) (e : Expr) {found : Found NodeId RecordId} {gave : Found Value RecordId}
    (h : g.Built scope e found) (hgave : Gives Val found gave) : e.meaning results scope = some gave := by
  cases e with
  | number digits suffix offset =>
    cases h with
    | number hx hn =>
      obtain ⟨v, rfl, hv⟩ := hgave.value
      obtain rfl := hf.constant hn hv
      rw [Expr.meaning, hx]
      rfl
    | suffixed hx hc hn =>
      obtain ⟨v, rfl, hv⟩ := hgave.value
      obtain ⟨w, happly, hw⟩ := hf.operand hn hv
      obtain rfl := hf.constant hc hw
      simp [Expr.meaning, hx, happly]
  | text contents offset =>
    cases h with
    | text hn =>
      obtain ⟨v, rfl, hv⟩ := hgave.value
      obtain rfl := hf.constant hn hv
      rfl
  | name name offset => exact hanswers.meaning_name hf hr h hgave
  | group inner =>
    cases h with
    | group h =>
      rw [Expr.meaning]
      exact Built.meaning hanswers hf ha hr inner h hgave
  | call name arguments offset =>
    cases h with
    | call hb hes hn =>
      obtain ⟨v, rfl, hv⟩ := hgave.value
      obtain ⟨values, happly, hvalues⟩ := hf.operands hn hv
      simp [Expr.meaning, hb, BuiltAll.meanings hanswers hf ha hr arguments hes hvalues, happly]
  | field receiver name offset =>
    cases h with
    | @field _ _ f _ _ _ h hname hn =>
      obtain ⟨v, rfl, hv⟩ := hgave.value
      obtain ⟨w, happly, hw⟩ := hf.operand hn hv
      have hmeaning := Built.meaning hanswers hf ha hr receiver h (show Gives Val _ (.value w) from hw)
      -- That the field can be read of this value shows that it would be found for it now.
      have hfield := field?_of_read (Operation.perform_of_apply (Operation.value?_eq_some_iff.mp happly)).1
      simp [Expr.meaning, hmeaning, ← hname, hfield, happly]
    | @member _ _ _ inner member h hm =>
      have hmeaning := Built.meaning hanswers hf ha hr receiver h (show Gives Val _ (.scope inner) from rfl)
      have hread := (hanswers.read? (h.scope_live ha hr receiver rfl) hm).mpr hgave
      simpa [Expr.meaning, hmeaning] using hread
  | method receiver name arguments offset =>
    cases h with
    | @method _ _ f _ _ _ _ _ h hname hes hn =>
      obtain ⟨v, rfl, hv⟩ := hgave.value
      obtain ⟨w, values, happly, hw, hvalues⟩ := hf.receiver hn hv
      have hmeaning := Built.meaning hanswers hf ha hr receiver h (show Gives Val _ (.value w) from hw)
      have hmeanings := BuiltAll.meanings hanswers hf ha hr arguments hes hvalues
      have hmethod := (method?_of_call (Operation.perform_of_apply (Operation.value?_eq_some_iff.mp happly)).1).1
      simp [Expr.meaning, hmeaning, Found.value?, ← hname, hmethod, hmeanings, happly]
  | unary op operand offset =>
    cases h with
    | unary h hn =>
      obtain ⟨v, rfl, hv⟩ := hgave.value
      obtain ⟨w, happly, hw⟩ := hf.operand hn hv
      have hmeaning := Built.meaning hanswers hf ha hr operand h (show Gives Val _ (.value w) from hw)
      simp [Expr.meaning, hmeaning, Found.value?, happly]
  | binary op left right offset =>
    cases h with
    | binary hl hright hn =>
      obtain ⟨v, rfl, hv⟩ := hgave.value
      obtain ⟨w, values, happly, hw, hvalues⟩ := hf.receiver hn hv
      obtain ⟨w', ws, hw', hws, rfl⟩ := List.forall₂_cons_left_iff.mp hvalues
      obtain rfl := List.forall₂_nil_left_iff.mp hws
      have hmeaning := Built.meaning hanswers hf ha hr left hl (show Gives Val _ (.value w) from hw)
      have hmeaning' := Built.meaning hanswers hf ha hr right hright (show Gives Val _ (.value w') from hw')
      simp [Expr.meaning, hmeaning, hmeaning', Found.value?, happly]

theorem BuiltAll.meanings (hanswers : g.Answers Val results) (hf : g.Derives Val) (ha : g.Accounts ext)
    (hr : 0 < (g.record scope).owners) (es : List Expr) {nodes : List NodeId} {values : List Value}
    (h : g.BuiltAll scope es (nodes.map .value)) (hvalues : List.Forall₂ Val nodes values) :
    Expr.meanings results scope es = some values := by
  cases es with
  | nil =>
    cases hvalues with
    | nil => rfl
    | cons => cases h
  | cons e es =>
    cases hvalues with
    | nil => cases h
    | @cons n v nodes values hv hrest =>
      cases h with
      | cons h hs =>
        have hmeaning := Built.meaning hanswers hf ha hr e h (show Gives Val _ (.value v) from hv)
        simp [Expr.meanings, hmeaning, Found.value?, BuiltAll.meanings hanswers hf ha hr es hs hrest]

end

end Graph

end FormulaGraph
