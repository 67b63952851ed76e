import FormulaGraph.Proofs.Accepting
import FormulaGraph.Proofs.Precedence
import FormulaGraph.Proofs.Rereading

/-! A formula that is built leaves behind what it has been built into, and what it was built into can be told
from the grammar alone. -/

namespace FormulaGraph

open FormulaGraph.Graph

variable {S β γ : Type}

/-- What comes of it is as it should be, if anything comes of it. -/
def Yields (x : OptionT (StateM S) β) (s : S) (Q : β → S → Prop) : Prop :=
  ∀ b s', x.run.run s = (some b, s') → Q b s'

theorem run_bind_option (x : OptionT (StateM S) γ) (f : γ → OptionT (StateM S) β) (s : S) :
    (x >>= f).run.run s = match x.run.run s with
      | (some c, s') => (f c).run.run s'
      | (none, s') => (none, s') := by
  rw [OptionT.run_bind, Option.elimM, StateT.run_bind]
  show StateT.run (Option.elim (x.run.run s).1 _ _) (x.run.run s).2 = _
  rcases x.run.run s with ⟨r, s'⟩
  cases r <;> rfl

section

variable {s : S} {Q : β → S → Prop} {P : γ → S → Prop}

theorem Yields.pure {b : β} (h : Q b s) : Yields (pure b) s Q := by
  intro b' s' hrun
  cases hrun
  exact h

theorem Yields.failure : Yields (failure : OptionT (StateM S) β) s Q := by
  intro b' s' hrun
  cases hrun

theorem Yields.lift {x : StateM S β} (h : Q (x.run s).1 (x.run s).2) :
    Yields (liftM x : OptionT (StateM S) β) s Q := by
  intro b' s' hrun
  cases hrun
  exact h

theorem Yields.bind {x : OptionT (StateM S) γ} {f : γ → OptionT (StateM S) β} (hx : Yields x s P)
    (hf : ∀ c s', P c s' → Yields (f c) s' Q) : Yields (x >>= f) s Q := by
  intro b s' hrun
  rw [run_bind_option] at hrun
  rcases hr : x.run.run s with ⟨r, s₁⟩
  rw [hr] at hrun
  cases r with
  | none => cases hrun
  | some c => exact hf c s₁ (hx c s₁ hr) b s' hrun

theorem Yields.mono {x : OptionT (StateM S) β} {Q' : β → S → Prop} (h : Yields x s Q)
    (hQ : ∀ b s', Q b s' → Q' b s') : Yields x s Q' :=
  fun b s' hrun => hQ b s' (h b s' hrun)

end

variable {g g' g'' : Graph} {ext : List Hold} {told : List NodeId} {scope : RecordId} {read : Reader} {k : Nat}

theorem Graph.Holding.trans {nodes nodes' : List NodeId} (h : g.Holding ext told nodes g')
    (h' : g'.Holding (nodes.map .node ++ ext) told nodes' g'') : g.Holding ext told (nodes' ++ nodes) g'' := by
  refine ⟨?_, h.2.trans h'.2⟩
  rw [List.map_append, List.append_assoc]
  exact h'.1

theorem Graph.Holding.perm {nodes nodes' : List NodeId} (h : g.Holding ext told nodes g')
    (hp : nodes.Perm nodes') : g.Holding ext told nodes' g' :=
  ⟨h.1.perm ((hp.map _).append_right ext), h.2⟩

/-- What is found is held, or is a live record. -/
def Graph.HoldsFound (g : Graph) (ext : List Hold) (told : List NodeId) (found : Found NodeId RecordId)
    (g' : Graph) : Prop :=
  g.Holding ext told found.value?.toList g' ∧ ∀ r, found = .scope r → 0 < (g'.record r).owners

theorem holdsFound_value {n : NodeId} (h : g.Holding ext told [n] g') :
    g.HoldsFound ext told (.value n) g' :=
  ⟨h, fun _ he => by cases he⟩

/-- What is found is a node with a value, unless the tree only names it. -/
def Graph.Known (g : Graph) (scope : RecordId) (e : Expr) (found : Found NodeId RecordId) : Prop :=
  ∀ n, found = .value n → (∃ v, g.Has n v) ∨ g.Named scope e n

theorem known_of_has {e : Expr} {n : NodeId} {v : Value} (h : g.Has n v) : g.Known scope e (.value n) := by
  intro m hm
  cases hm
  exact .inl ⟨v, h⟩

theorem literal_yields (value : Value) (h : g.Sound ext told) :
    Yields (liftM ((graphBuilder read).literal value)) g fun n g' =>
      g.Holding ext told [n] g' ∧ g'.IsConstant n value ∧ g'.Has n value := by
  have hnew : (g.addCell (.constant value) (some value)).2.Has g.cells.size value := by
    rw [Has, cell_addCell, if_pos rfl]
    exact ⟨rfl, rfl⟩
  refine .lift ⟨⟨h.addConstant value, grows_addCell _ _⟩, ⟨?_, ?_⟩, hnew⟩
  · show g.cells.size < (g.addCell (.constant value) (some value)).2.cells.size
    rw [size_addCell]
    exact Nat.lt_succ_self _
  · show ((g.addCell (.constant value) (some value)).2.cell g.cells.size).node = _
    rw [cell_addCell, if_pos rfl]

theorem node_addCalculation (g : Graph) (operation : Operation) (operands : List NodeId) (offset : Nat) :
    (g.addCalculation operation operands offset).1 = g.cells.size ∧
      (g.addCalculation operation operands offset).2.cells.size = g.cells.size + 1 ∧
      ∃ tickets, (g.addCalculation operation operands offset).2.cell g.cells.size =
        { node := .calculation operation operands offset tickets, cache := none, dirty := true, owners := 1 } := by
  obtain ⟨hsize, -⟩ := grows_subscribeAll (g := g) operands (.node g.cells.size)
  rw [addCalculation]
  generalize g.subscribeAll operands (.node g.cells.size) = r at hsize
  obtain ⟨tickets, g'⟩ := r
  refine ⟨hsize, (size_addCell _ _).trans (congrArg (· + 1) hsize), tickets, ?_⟩
  dsimp only
  rw [cell_addCell, if_pos hsize.symm]
  rfl

theorem calculate_calculates (hread : Reads read) {operation : Operation} {arguments : List NodeId}
    {offset : Nat} (h : g.Sound (arguments.map .node ++ ext) told) (hk : k ≤ g.cells.size) {n : NodeId}
    (hrun : ((graphBuilder read).calculate operation arguments offset).run g = (.ok n, g')) :
    g.Holding ext told [n] g' ∧ (g'.since k).Calculates n operation arguments offset ∧ ∃ v, g'.Has n v := by
  obtain ⟨hn, hsize, tickets, hcell⟩ := node_addCalculation g operation arguments offset
  obtain ⟨hadded, hgrown⟩ := h.addCalculation operation offset
  obtain ⟨hsound, hgrows, hvalue⟩ := hread hadded (.outside List.mem_cons_self)
  rw [run_calculate] at hrun
  generalize g.addCalculation operation arguments offset = added
    at hn hsize hcell hadded hgrown hsound hgrows hvalue hrun
  rcases hr : (read added.1).run.run added.2 with ⟨e | v, g₁⟩
  · rw [hr] at hrun
    cases hrun
  · rw [hr] at hrun hsound hgrows hvalue
    cases hrun
    refine ⟨⟨hsound, hgrown.trans hgrows⟩, (Calculates.extends ⟨?_, tickets, ?_⟩ hgrows.extends).since ?_,
      v, hvalue v rfl⟩
    · rw [hn, hsize]
      exact Nat.lt_succ_self _
    · rw [hn, Graph.node, hcell]
    · rwa [hn]

theorem calculated_yields (hread : Reads read) (operation : Operation) (arguments : List NodeId) (offset : Nat)
    (h : g.Sound (arguments.map .node ++ ext) told) (hk : k ≤ g.cells.size) :
    Yields ((graphBuilder read).calculated operation arguments offset) g fun x g' =>
      ∃ n, x.operand = .value n ∧ g.Holding ext told [n] g' ∧
        (g'.since k).Calculates n operation arguments offset ∧ ∃ v, g'.Has n v := by
  refine Yields.bind (P := fun r g' => ∀ n, r = .ok n →
    g.Holding ext told [n] g' ∧ (g'.since k).Calculates n operation arguments offset ∧ ∃ v, g'.Has n v)
    (.lift fun n hn => ?_) fun r g' hr => ?_
  · exact calculate_calculates hread h hk (Prod.ext hn rfl)
  · cases r with
    | ok n => exact .pure ⟨n, rfl, hr n rfl⟩
    | error e => exact .failure

theorem resolve_yields (name : String) (h : g.Sound ext told) (hr : 0 < (g.record scope).owners) :
    Yields (liftM ((graphBuilder read).resolve scope name)) g fun found g' =>
      (found = none ∧ g.resolve? scope name = none ∧ g' = g) ∨
        ∃ member, found = some member.found ∧ g'.resolve? scope name = some member ∧
          g.HoldsFound ext told member.found g' := by
  refine .lift ?_
  rw [run_resolve]
  rcases hf : g.resolve? scope name with _ | ⟨n | r | items⟩
  · exact .inl ⟨rfl, rfl, rfl⟩
  · have hheld := h.retain_node (live_of_resolve? h.accounts hr hf)
    exact .inr ⟨.node n, rfl, (resolve?_of_records grows_retain_node.records scope name).trans hf,
      holdsFound_value ⟨hheld, grows_retain_node⟩⟩
  · refine .inr ⟨.record r, rfl, hf, ⟨h, .refl g⟩, fun r' he => ?_⟩
    cases he
    exact recordLive_of_resolve? h.accounts hr hf
  · exact .inr ⟨.list items, rfl, hf, ⟨h, .refl g⟩, fun r' he => by cases he⟩

theorem member_of_found {member : Member} {n : NodeId} (h : member.found = .value n) : member = .node n := by
  cases member with
  | node m => exact congrArg Member.node (Found.value.inj h)
  | record | list => cases h

theorem named_yields (name : String) (offset : Nat) (h : g.Sound ext told)
    (hr : 0 < (g.record scope).owners) :
    Yields ((graphBuilder read).named scope name offset) g fun x g' =>
      g.HoldsFound ext told x.operand g' ∧ (g'.since k).Built scope (.name name offset) x.operand ∧
        g'.Known scope (.name name offset) x.operand := by
  have hliteral : ∀ value, (∀ g' n, g.Grows g' → (g'.since k).IsConstant n value →
      (g'.since k).Built scope (.name name offset) (.value n)) →
      Yields (do return ⟨.value (← liftM ((graphBuilder read).literal value)), offset, name⟩) g
        fun (x : Entry NodeId RecordId) g' =>
          g.HoldsFound ext told x.operand g' ∧ (g'.since k).Built scope (.name name offset) x.operand ∧
            g'.Known scope (.name name offset) x.operand :=
    fun value hbuilt => (literal_yields value h).bind fun n g' ⟨hheld, hn, hhas⟩ =>
      .pure ⟨holdsFound_value hheld, hbuilt g' n hheld.2 hn.since, known_of_has hhas⟩
  unfold Builder.named
  by_cases ht : name = "true"
  · rw [if_pos ht]
    exact hliteral (.bool true) fun g' n _ hn => .bool (if_pos ht) hn
  · by_cases hf : name = "false"
    · rw [if_neg ht, if_pos hf]
      exact hliteral (.bool false) fun g' n _ hn => .bool ((if_neg ht).trans (if_pos hf)) hn
    · rw [if_neg ht, if_neg hf]
      have hb : boolNamed? name = none := (if_neg ht).trans (if_neg hf)
      refine (resolve_yields name h hr).bind fun found g' hfound => ?_
      rcases hfound with ⟨rfl, hnone, rfl⟩ | ⟨member, rfl, hm, hheld⟩
      · cases hc : namedConstant? name with
        | none => exact .failure
        | some value =>
          exact hliteral value fun g' n hg hn =>
            .constant hb ((resolve?_since scope name).trans
              ((resolve?_of_records hg.records scope name).trans hnone)) hc hn
      · refine .pure ⟨hheld, .resolved hb ((resolve?_since scope name).trans hm), fun n hn => .inr (.name hb ?_)⟩
        rw [hm, member_of_found hn]

theorem only_yields (x : Entry NodeId RecordId) :
    Yields x.only g fun a g' => g' = g ∧ x.operand = .value a := by
  unfold Entry.only
  cases x.operand with
  | value a => exact .pure ⟨rfl, rfl⟩
  | scope | list => exact .failure

theorem operands_of_takeValues {entries : List (Entry NodeId RecordId)} {taken values : List NodeId}
    (h : takeValues entries taken = .ok values) :
    ∃ rest, values = taken.reverse ++ rest ∧ entries.map Entry.operand = rest.map Found.value := by
  induction entries generalizing taken with
  | nil =>
    cases h
    exact ⟨[], (List.append_nil _).symm, rfl⟩
  | cons x entries ih =>
    rw [takeValues] at h
    cases hx : x.operand with
    | value a =>
      rw [hx] at h
      obtain ⟨rest, hvalues, hrest⟩ := ih h
      refine ⟨a :: rest, ?_, ?_⟩
      · rw [hvalues, List.reverse_cons, List.append_assoc]
        rfl
      · rw [List.map_cons, hx, hrest]
        rfl
    | scope | list =>
      rw [hx] at h
      cases h

theorem onlyValues_yields (entries : List (Entry NodeId RecordId)) :
    Yields (onlyValues entries) g fun values g' =>
      g' = g ∧ entries.map Entry.operand = values.map Found.value ∧
        entries.filterMap (·.operand.value?) = values := by
  unfold onlyValues
  cases ht : takeValues entries [] with
  | error e => exact .failure
  | ok values =>
    obtain ⟨rest, rfl, hrest⟩ := operands_of_takeValues ht
    refine .pure ⟨rfl, hrest, ?_⟩
    have hvalues := congrArg (List.filterMap Found.value?) hrest
    rw [List.filterMap_map, List.filterMap_map] at hvalues
    refine hvalues.trans ?_
    exact List.filterMap_some

theorem kind_yields {n : NodeId} (hread : Reads read) (h : g.Sound ext told) (hn : .node n ∈ ext) :
    Yields (liftM ((graphBuilder read).kind n)) g fun _ g' => g'.Sound ext told ∧ g.Grows g' := by
  obtain ⟨hsound, hgrows, -⟩ := hread h (.outside hn)
  exact .lift ⟨hsound, hgrows⟩

theorem methodOf_yields {x : Entry NodeId RecordId} {name : String} (hread : Reads read)
    (h : g.Sound (x.operand.value?.toList.map .node ++ ext) told) :
    Yields ((graphBuilder read).methodOf x name) g fun (a, f) g' =>
      x.operand = .value a ∧ (g'.Sound (x.operand.value?.toList.map .node ++ ext) told ∧ g.Grows g') ∧
        f.name = name := by
  refine (only_yields x).bind fun a g₁ ⟨hg, hx⟩ => ?_
  subst hg
  rw [hx] at h ⊢
  refine (kind_yields hread h List.mem_cons_self).bind fun kind g₂ hheld => ?_
  cases kind with
  | error e => exact .failure
  | ok kind =>
    dsimp only
    cases hf : kind.method? name with
    | none => exact .failure
    | some f => exact .pure ⟨rfl, hheld, Kind.name_of_method? hf⟩

mutual

/-- What is made for a tree is made anew. -/
theorem build_yields_since (hread : Reads read) (e : Expr) {g : Graph} {ext : List Hold} (h : g.Sound ext told)
    (hr : 0 < (g.record scope).owners) (hk : k ≤ g.cells.size) :
    Yields ((graphBuilder read).build scope e) g fun x g' =>
      g.HoldsFound ext told x.operand g' ∧ (g'.since k).Built scope e x.operand ∧ g'.Known scope e x.operand := by
  cases e with
  | number digits suffix offset =>
    rw [Builder.build]
    cases hx : readNumber? digits.toList with
    | none => exact .failure
    | some x =>
      refine (literal_yields (.scalar x) h).bind fun a g' ⟨hheld, ha, hhas⟩ => ?_
      cases suffix with
      | none => exact .pure ⟨holdsFound_value hheld, .number hx ha.since, known_of_has hhas⟩
      | some suffix =>
        refine (calculated_yields hread _ [a] offset hheld.1 (Nat.le_trans hk hheld.2.size)).mono
          fun x g'' ⟨n, hx', hheld', hn, v, hv⟩ => ?_
        rw [hx']
        exact ⟨holdsFound_value ⟨hheld'.1, hheld.2.trans hheld'.2⟩,
          .suffixed hx (ha.since.extends hheld'.2.extends.since) hn, known_of_has hv⟩
  | text contents offset =>
    rw [Builder.build]
    exact (literal_yields _ h).bind fun n g' ⟨hheld, hn, hhas⟩ =>
      .pure ⟨holdsFound_value hheld, .text hn.since, known_of_has hhas⟩
  | name name offset =>
    rw [Builder.build]
    exact named_yields name offset h hr
  | group inner =>
    rw [Builder.build]
    exact (build_yields_since hread inner h hr hk).mono fun x g' ⟨hheld, hbuilt, hknown⟩ =>
      ⟨hheld, .group hbuilt, fun n hn => (hknown n hn).imp_right .group⟩
  | call name arguments offset =>
    rw [Builder.build]
    cases hf : Builtin.ofName? name with
    | none => exact .failure
    | some f =>
      refine (buildAll_yields_since hread arguments h hr hk).bind fun xs g₁ ⟨hheld, hbuilt⟩ => ?_
      refine (onlyValues_yields xs).bind fun values g₂ ⟨hg, hmap, hvalues⟩ => ?_
      subst hg
      rw [hvalues] at hheld
      rw [hmap] at hbuilt
      by_cases htakes : f.takes values.length = true
      · rw [if_pos htakes]
        refine (calculated_yields hread _ values offset hheld.1 (Nat.le_trans hk hheld.2.size)).mono
          fun x g₃ ⟨n, hx, hheld', hn, v, hv⟩ => ?_
        rw [hx]
        exact ⟨holdsFound_value ⟨hheld'.1, hheld.2.trans hheld'.2⟩,
          .call hf (hbuilt.extends hheld'.2.extends.since) hn, known_of_has hv⟩
      · rw [if_neg htakes]
        exact .failure
  | field receiver name offset =>
    rw [Builder.build]
    refine (build_yields_since hread receiver h hr hk).bind fun x g₁ ⟨hheld, hbuilt, _⟩ => ?_
    unfold Builder.member
    cases hx : x.operand with
    | list => exact .failure
    | scope inner =>
      rw [hx] at hheld hbuilt
      refine (resolve_yields name hheld.1.1 (hheld.2 inner rfl)).bind fun found g₂ hfound => ?_
      rcases hfound with ⟨rfl, -⟩ | ⟨member, rfl, hm, hheld'⟩
      · exact .failure
      · have hgrows := hheld'.1.2
        have hbuilt' := hbuilt.extends hgrows.extends.since
        have hm' : (g₂.since k).resolve? inner name = some member := (resolve?_since inner name).trans hm
        refine .pure ⟨⟨⟨hheld'.1.1, hheld.1.2.trans hgrows⟩, hheld'.2⟩, .member hbuilt' hm', fun n hn =>
          .inr (.member hbuilt'.of_since ?_)⟩
        rw [hm, member_of_found hn]
    | value a =>
      rw [hx] at hheld hbuilt
      refine (kind_yields hread hheld.1.1 List.mem_cons_self).bind fun kind g₂ hheld' => ?_
      cases kind with
      | error e => exact .failure
      | ok kind =>
        dsimp only
        cases hf : kind.field? name with
        | none => exact .failure
        | some f =>
          have hk' := Nat.le_trans hk (hheld.1.2.trans hheld'.2).size
          refine (calculated_yields hread _ [a] offset hheld'.1 hk').mono
            fun y g₃ ⟨n, hy, hheld'', hn, v, hv⟩ => ?_
          rw [hy]
          exact ⟨holdsFound_value ⟨hheld''.1, (hheld.1.2.trans hheld'.2).trans hheld''.2⟩,
            .field (hbuilt.extends (hheld'.2.trans hheld''.2).extends.since) (Kind.name_of_field? hf) hn,
            known_of_has hv⟩
  | method receiver name arguments offset =>
    rw [Builder.build]
    refine (build_yields_since hread receiver h hr hk).bind fun x g₁ ⟨hheld, hbuilt, _⟩ => ?_
    refine (methodOf_yields hread hheld.1.1).bind fun (a, f) g₂ ⟨hx, hheld', hname⟩ => ?_
    rw [hx] at hheld' hbuilt
    refine (buildAll_yields_since hread arguments hheld'.1 (hheld'.2.record_live (hheld.1.2.record_live hr))
      (Nat.le_trans hk (hheld.1.2.trans hheld'.2).size)).bind fun xs g₃ ⟨hheld'', hbuilts⟩ => ?_
    refine (onlyValues_yields xs).bind fun values g₄ ⟨hg, hmap, hvalues⟩ => ?_
    subst hg
    rw [hvalues] at hheld''
    rw [hmap] at hbuilts
    by_cases harity : values.length = f.arity
    · rw [if_pos harity]
      have hsound : g₄.Sound ((a :: values).map .node ++ ext) told :=
        hheld''.1.perm List.perm_middle
      have hk' := Nat.le_trans hk ((hheld.1.2.trans hheld'.2).trans hheld''.2).size
      refine (calculated_yields hread _ (a :: values) offset hsound hk').mono
        fun y g₅ ⟨n, hy, hlast, hn, v, hv⟩ => ?_
      rw [hy]
      have hgrows := (hheld'.2.trans hheld''.2).trans hlast.2
      exact ⟨holdsFound_value ⟨hlast.1, hheld.1.2.trans hgrows⟩,
        .method (hbuilt.extends hgrows.extends.since) hname (hbuilts.extends hlast.2.extends.since) hn,
        known_of_has hv⟩
    · rw [if_neg harity]
      exact .failure
  | unary op operand offset =>
    rw [Builder.build]
    refine (build_yields_since hread operand h hr hk).bind fun x g₁ ⟨hheld, hbuilt, _⟩ => ?_
    refine (only_yields x).bind fun a g₂ ⟨hg, hx⟩ => ?_
    subst hg
    rw [hx] at hheld hbuilt
    refine (calculated_yields hread _ [a] offset hheld.1.1 (Nat.le_trans hk hheld.1.2.size)).mono
      fun y g₃ ⟨n, hy, hlast, hn, v, hv⟩ => ?_
    rw [hy]
    exact ⟨holdsFound_value ⟨hlast.1, hheld.1.2.trans hlast.2⟩, .unary (hbuilt.extends hlast.2.extends.since) hn,
      known_of_has hv⟩
  | binary op left right offset =>
    rw [Builder.build]
    refine (build_yields_since hread left h hr hk).bind fun x g₁ ⟨hheld, hbuilt, _⟩ => ?_
    have hk₁ := Nat.le_trans hk hheld.1.2.size
    refine (build_yields_since hread right hheld.1.1 (hheld.1.2.record_live hr) hk₁).bind
      fun y g₂ ⟨hheld', hbuilt', _⟩ => ?_
    refine (only_yields y).bind fun c g₃ ⟨hg, hy⟩ => ?_
    subst hg
    refine (only_yields x).bind fun a g₄ ⟨hg, hx⟩ => ?_
    subst hg
    rw [hx] at hheld hheld' hbuilt
    rw [hy] at hheld' hbuilt'
    have hsound : g₄.Sound ([a, c].map .node ++ ext) told := hheld'.1.1.perm (.swap _ _ _)
    refine (calculated_yields hread _ [a, c] offset hsound (Nat.le_trans hk₁ hheld'.1.2.size)).mono
      fun z g₅ ⟨n, hz, hlast, hn, v, hv⟩ => ?_
    rw [hz]
    have hgrows := hheld'.1.2.trans hlast.2
    exact ⟨holdsFound_value ⟨hlast.1, hheld.1.2.trans hgrows⟩,
      .binary (hbuilt.extends hgrows.extends.since) (hbuilt'.extends hlast.2.extends.since) hn,
        known_of_has hv⟩

theorem buildAll_yields_since (hread : Reads read) (es : List Expr) {g : Graph} {ext : List Hold}
    (h : g.Sound ext told) (hr : 0 < (g.record scope).owners) (hk : k ≤ g.cells.size) :
    Yields ((graphBuilder read).buildAll scope es) g fun xs g' =>
      g.Holding ext told (xs.filterMap (·.operand.value?)) g' ∧
        (g'.since k).BuiltAll scope es (xs.map Entry.operand) := by
  cases es with
  | nil =>
    rw [Builder.buildAll]
    exact .pure ⟨⟨h, .refl g⟩, .nil⟩
  | cons e es =>
    rw [buildAll_cons]
    refine (build_yields_since hread e h hr hk).bind fun x g₁ ⟨hheld, hbuilt, _⟩ => ?_
    refine (buildAll_yields_since hread es hheld.1.1 (hheld.1.2.record_live hr) (Nat.le_trans hk hheld.1.2.size)).bind
      fun xs g₂ ⟨hheld', hbuilts⟩ => .pure ⟨?_, .cons (hbuilt.extends hheld'.2.extends.since) hbuilts⟩
    refine (hheld.1.trans hheld').perm ?_
    rw [List.filterMap_cons]
    cases x.operand.value? with
    | none => exact .of_eq (List.append_nil _)
    | some a => exact List.perm_append_singleton a _

end

theorem build_yields (hread : Reads read) (e : Expr) (h : g.Sound ext told) (hr : 0 < (g.record scope).owners) :
    Yields ((graphBuilder read).build scope e) g fun x g' =>
      g.HoldsFound ext told x.operand g' ∧ g'.Built scope e x.operand ∧ g'.Known scope e x.operand :=
  (build_yields_since hread e h hr (Nat.zero_le _)).mono fun _ _ ⟨hheld, hbuilt, hknown⟩ =>
    ⟨hheld, hbuilt.of_since, hknown⟩

theorem buildAll_yields (hread : Reads read) (es : List Expr) (h : g.Sound ext told)
    (hr : 0 < (g.record scope).owners) :
    Yields ((graphBuilder read).buildAll scope es) g fun xs g' =>
      g.Holding ext told (xs.filterMap (·.operand.value?)) g' ∧ g'.BuiltAll scope es (xs.map Entry.operand) :=
  (buildAll_yields_since hread es h hr (Nat.zero_le _)).mono fun _ _ ⟨hheld, hbuilt⟩ => ⟨hheld, hbuilt.of_since⟩

theorem run_succeeding {ε : Type} (x : ExceptT ε (StateM S) β) (s : S) :
    (succeeding x).run.run s = ((x.run.run s).1.toOption, (x.run.run s).2) := by
  rw [succeeding, OptionT.run_mk, StateT.run_map]
  rfl

/-- Reading tokens and building their tree come to the same. -/
theorem run_takeAll_iff {α σ : Type} (b : Builder (StateM S) α σ) (scope : σ) {e : Expr} {ts : List Token}
    (h : Spells 0 e ts) {s s' : S} {a : α} :
    (b.takeAll scope {} ts).run.run s = (.ok a, s') ↔
      (b.build scope e >>= Entry.only).run.run s = (some a, s') := by
  rw [← h.takeAll b scope, run_succeeding]
  rcases (b.takeAll scope {} ts).run.run s with ⟨e | a', s₁⟩
  · constructor
    · intro he
      cases he
    · intro he
      cases he
  · constructor
    · intro he
      cases he
      rfl
    · intro he
      cases he
      rfl

theorem run_parse_ok_iff {α σ : Type} (b : Builder (StateM S) α σ) (scope : σ) (text : String) {s s' : S}
    {a : α} : (b.parse scope text).run s = (.ok a, s') ↔
      ∃ tokens, tokenize text = .ok tokens ∧ (b.takeAll scope {} tokens).run.run s = (.ok a, s') := by
  rw [Builder.parse]
  cases ht : tokenize text with
  | error e =>
    constructor
    · intro he
      cases he
    · rintro ⟨_, he, -⟩
      cases he
  | ok tokens =>
    dsimp only
    rw [StateT.run_bind]
    rcases hr : (b.takeAll scope {} tokens).run.run s with ⟨e | a', s₁⟩
    · constructor
      · intro he
        cases he
      · rintro ⟨_, he, hrun⟩
        cases he
        rw [hr] at hrun
        cases hrun
    · constructor
      · intro he
        cases he
        exact ⟨tokens, rfl, hr⟩
      · rintro ⟨_, he, hrun⟩
        cases he
        rw [hr] at hrun
        cases hrun
        rfl

/-- The root of a tree and the formula it was built from, in a live scope. -/
def Graph.BuiltFrom (g : Graph) (scope : RecordId) (text : String) (root : NodeId) : Prop :=
  0 < (g.record scope).owners ∧
    ∃ tokens e, tokenize text = .ok tokens ∧ Spells 0 e tokens ∧ g.Built scope e (.value root)

theorem Graph.BuiltFrom.extends {text : String} {root : NodeId} (h : g.BuiltFrom scope text root)
    (he : g.Extends g') : g'.BuiltFrom scope text root := by
  obtain ⟨hr, tokens, e, htokens, hspells, hbuilt⟩ := h
  refine ⟨?_, tokens, e, htokens, hspells, hbuilt.extends he⟩
  rw [record, he.records]
  exact hr

/-- A formula that is parsed is that of a tree, which has been built. -/
theorem parse_built_since (hread : Reads read) (h : g.Sound ext told) (hr : 0 < (g.record scope).owners)
    {text : String} {root : NodeId}
    (hparse : ((graphBuilder read).parse scope text).run g = (.ok root, g')) :
    ∃ tokens e, tokenize text = .ok tokens ∧ Spells 0 e tokens ∧
      (g'.since g.cells.size).Built scope e (.value root) ∧ g'.Known scope e (.value root) ∧
        0 < (g'.record scope).owners := by
  obtain ⟨tokens, htokens, hrun⟩ := (run_parse_ok_iff _ scope text).mp hparse
  obtain ⟨e, hspells⟩ := (returns_takeAll (graphBuilder read) scope tokens).of_run hrun
  rw [run_takeAll_iff _ scope hspells] at hrun
  have hyields : Yields ((graphBuilder read).build scope e >>= Entry.only) g fun root g' =>
      g.Grows g' ∧ (g'.since g.cells.size).Built scope e (.value root) ∧ g'.Known scope e (.value root) :=
    (build_yields_since hread e h hr (Nat.le_refl _)).bind fun x g₁ ⟨hheld, hbuilt, hknown⟩ =>
      (only_yields x).mono fun a g₂ ⟨hg, hx⟩ => ⟨hg ▸ hheld.1.2, hg ▸ hx ▸ hbuilt, hg ▸ hx ▸ hknown⟩
  obtain ⟨hgrows, hbuilt, hknown⟩ := hyields root g' hrun
  exact ⟨tokens, e, htokens, hspells, hbuilt, hknown, hgrows.record_live hr⟩

theorem parse_built (hread : Reads read) (h : g.Sound ext told) (hr : 0 < (g.record scope).owners)
    {text : String} {root : NodeId}
    (hparse : ((graphBuilder read).parse scope text).run g = (.ok root, g')) :
    ∃ tokens e, tokenize text = .ok tokens ∧ Spells 0 e tokens ∧ g'.Built scope e (.value root) ∧
      g'.Known scope e (.value root) ∧ 0 < (g'.record scope).owners := by
  obtain ⟨tokens, e, htokens, hspells, hbuilt, hknown, hr'⟩ := parse_built_since hread h hr hparse
  exact ⟨tokens, e, htokens, hspells, hbuilt.of_since, hknown, hr'⟩

theorem parse_builtFrom (hread : Reads read) (h : g.Sound ext told) (hr : 0 < (g.record scope).owners)
    {text : String} {root : NodeId}
    (hparse : ((graphBuilder read).parse scope text).run g = (.ok root, g')) :
    g'.BuiltFrom scope text root := by
  obtain ⟨tokens, e, htokens, hspells, hbuilt, -, hr'⟩ := parse_built hread h hr hparse
  exact ⟨hr', tokens, e, htokens, hspells, hbuilt⟩

end FormulaGraph
