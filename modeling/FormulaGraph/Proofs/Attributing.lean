import FormulaGraph.Proofs.Blaming
import FormulaGraph.Proofs.Trees

/-! Which formula a calculation is of. Where no record holds a calculation, all those behind an expression have
been made by tokens of its own formula, and what fails behind another expression has been put in that one's. -/

namespace FormulaGraph

open FormulaGraph.Graph

/-- The formulas that the expression may have when it is read. -/
def Source.texts : Source → List String
  | .unbuilt text => [text]
  | .built tree => [tree.text]
  | .edited text old => [text, old.text]

/-- It is no calculation, and if it is an expression, of a record in `R`. -/
def Node.Within (R : RecordId → Prop) : Node → Prop
  | .constant _ | .input _ => True
  | .calculation .. => False
  | .expression scope _ => R scope

def Hold.Within (R : RecordId → Prop) (g : Graph) : Hold → Prop
  | .node n => (g.node n).Within R
  | .record r => R r
  | .ticket _ => True

namespace Graph

variable {R : RecordId → Prop} {F : String → Prop} {g g' : Graph} {ext : List Hold} {n : NodeId}
  {r scope : RecordId} {formula : String}

/-- What the records in `R` hold leads to no other record, and is no calculation. -/
def Encloses (R : RecordId → Prop) (g : Graph) : Prop :=
  ∀ r, R r → 0 < (g.record r).owners → ∀ hold ∈ (g.record r).holds, hold.Within R g

/-- What has been calculated for the node has been made by tokens of the formula, from what is found in records of
`R`. -/
inductive MadeFor (R : RecordId → Prop) (g : Graph) (formula : String) : NodeId → Prop
  | given {n : NodeId} (hn : n < g.cells.size) (h : (g.node n).Within R) : MadeFor R g formula n
  | calculation {n : NodeId} {operation : Operation} {operands : List NodeId} {offset : Nat} {lexeme : Lexeme}
    (h : g.Calculates n operation operands offset) (ht : HasToken formula ⟨offset, lexeme⟩)
    (hm : lexeme.Makes operation) (hs : ∀ d ∈ operands, MadeFor R g formula d) : MadeFor R g formula n

/-- The expressions of records in `R` have trees of their own formulas. -/
def Attributed (R : RecordId → Prop) (g : Graph) : Prop :=
  ∀ n scope source tree, 0 < (g.cell n).owners → g.node n = .expression scope source → R scope →
    source.tree? = some tree → g.MadeFor R tree.text tree.root

/-- The formulas of expressions of records in `R`. -/
def HasFormula (R : RecordId → Prop) (g : Graph) (text : String) : Prop :=
  ∃ n scope source, 0 < (g.cell n).owners ∧ g.node n = .expression scope source ∧ R scope ∧ text ∈ source.texts

/-- Fit to have the formulas of records in `R` built, which are all of `F`. -/
structure Tracks (R : RecordId → Prop) (F : String → Prop) (g : Graph) : Prop where
  encloses : g.Encloses R
  within {r : RecordId} {n : NodeId} : 0 < (g.record r).owners → .node n ∈ (g.record r).holds → n < g.cells.size
  attributed : g.Attributed R
  formulas {text : String} : g.HasFormula R text → F text

end Graph

instance {R : RecordId → Prop} [DecidablePred R] : DecidablePred (Node.Within R)
  | .constant _ | .input _ => .isTrue trivial
  | .calculation .. => .isFalse id
  | .expression scope _ => inferInstanceAs (Decidable (R scope))

instance {R : RecordId → Prop} [DecidablePred R] {g : Graph} : DecidablePred (Hold.Within R g)
  | .node n => inferInstanceAs (Decidable ((g.node n).Within R))
  | .record r => inferInstanceAs (Decidable (R r))
  | .ticket _ => .isTrue trivial

/-- Records that are not there are not live. -/
theorem Graph.encloses_iff {R : RecordId → Prop} {g : Graph} : g.Encloses R ↔ ∀ r < g.records.size, R r →
    0 < (g.record r).owners → ∀ hold ∈ (g.record r).holds, hold.Within R g := by
  refine ⟨fun h r _ => h r, fun h r hr hlive => h r (Nat.lt_of_not_le fun hle => ?_) hr hlive⟩
  rw [record, Array.getElem?_eq_none hle] at hlive
  cases hlive

instance {R : RecordId → Prop} [DecidablePred R] {g : Graph} : Decidable (g.Encloses R) :=
  decidable_of_iff _ Graph.encloses_iff.symm

theorem Source.mem_texts_of_pending {text : String} (source : Source) (h : source.pending? = some text) :
    text ∈ source.texts := by
  cases source with
  | built => cases h
  | unbuilt | edited =>
    cases h
    exact List.mem_cons_self

theorem Node.within_frame {R : RecordId → Prop} (node : Node) : node.frame.Within R ↔ node.Within R := by
  cases node <;> rfl

theorem Node.within_of_frame {R : RecordId → Prop} {node node' : Node} (h : node'.frame = node.frame) :
    node'.Within R ↔ node.Within R := by
  rw [← node'.within_frame, h, node.within_frame]

theorem Node.eq_of_frame {node : Node} {operation : Operation} {operands : List NodeId} {offset : Nat}
    {tickets : List Ticket} (h : node.frame = .calculation operation operands offset tickets) :
    node = .calculation operation operands offset tickets := by
  cases node with
  | calculation => exact h
  | constant | input | expression => cases h

namespace Graph

section

variable {R : RecordId → Prop} {F : String → Prop} {g g' : Graph} {ext : List Hold} {n : NodeId}
  {r scope : RecordId} {formula : String}

theorem Calculates.step {operation : Operation} {operands : List NodeId} {offset : Nat}
    (h : g.Calculates n operation operands offset) (hsize : g.cells.size ≤ g'.cells.size)
    (hframe : ∀ m < g.cells.size, (g'.node m).frame = (g.node m).frame) :
    g'.Calculates n operation operands offset := by
  obtain ⟨hn, tickets, hnode⟩ := h
  have hsame := hframe n hn
  rw [hnode] at hsame
  exact ⟨Nat.lt_of_lt_of_le hn hsize, tickets, Node.eq_of_frame hsame⟩

/-- Nothing becomes another node. -/
theorem MadeFor.step (h : g.MadeFor R formula n) (hsize : g.cells.size ≤ g'.cells.size)
    (hframe : ∀ m < g.cells.size, (g'.node m).frame = (g.node m).frame) : g'.MadeFor R formula n := by
  induction h with
  | given hn h => exact .given (Nat.lt_of_lt_of_le hn hsize) ((Node.within_of_frame (hframe _ hn)).mpr h)
  | calculation h ht hm _ ih => exact .calculation (h.step hsize hframe) ht hm ih

theorem MadeFor.grows (h : g.MadeFor R formula n) (hg : g.Grows g') : g'.MadeFor R formula n :=
  h.step hg.size fun m => hg.frame m trivial

theorem IsConstant.madeFor {value : Value} (h : g.IsConstant n value) : g.MadeFor R formula n :=
  .given h.1 (by
    rw [h.2]
    trivial)

theorem Encloses.step (h : g.Encloses R) (hrecords : g'.records = g.records)
    (hwithin : ∀ r n, 0 < (g.record r).owners → .node n ∈ (g.record r).holds → n < g.cells.size)
    (hframe : ∀ m < g.cells.size, (g'.node m).frame = (g.node m).frame) : g'.Encloses R := by
  intro r hr hlive hold hmem
  rw [record, hrecords, ← record] at hlive hmem
  have hheld := h r hr hlive hold hmem
  cases hold with
  | node n => exact (Node.within_of_frame (hframe n (hwithin r n hlive hmem))).mpr hheld
  | record | ticket => exact hheld

/-- Trees are those that were there, or have been made for their formulas. -/
theorem Attributed.step (h : g.Attributed R) (hsize : g.cells.size ≤ g'.cells.size)
    (hframe : ∀ m < g.cells.size, (g'.node m).frame = (g.node m).frame)
    (htrees : ∀ m scope source tree, 0 < (g'.cell m).owners → g'.node m = .expression scope source → R scope →
      source.tree? = some tree → (∃ source₀, 0 < (g.cell m).owners ∧ g.node m = .expression scope source₀ ∧
        source₀.tree? = some tree) ∨ g.MadeFor R tree.text tree.root) : g'.Attributed R := by
  intro m scope source tree hlive hnode hr htree
  rcases htrees m scope source tree hlive hnode hr htree with ⟨source₀, hlive₀, hnode₀, htree₀⟩ | hmade
  · exact (h m scope source₀ tree hlive₀ hnode₀ hr htree₀).step hsize hframe
  · exact hmade.step hsize hframe

/-- The records stay as they are. Live expressions have the formulas they had, and trees that they had or that
have been made for them. -/
theorem Tracks.step (h : g.Tracks R F) (hrecords : g'.records = g.records) (hsize : g.cells.size ≤ g'.cells.size)
    (hframe : ∀ m < g.cells.size, (g'.node m).frame = (g.node m).frame)
    (hsource : ∀ m scope source, 0 < (g'.cell m).owners → g'.node m = .expression scope source → R scope →
      ∃ source₀, 0 < (g.cell m).owners ∧ g.node m = .expression scope source₀ ∧ source.texts ⊆ source₀.texts ∧
        ∀ tree, source.tree? = some tree → source₀.tree? = some tree ∨ g.MadeFor R tree.text tree.root) :
    g'.Tracks R F := by
  exact
    { encloses := h.encloses.step hrecords (fun _ _ => h.within) hframe
      within := fun {r n} hlive hmem => by
        rw [record, hrecords, ← record] at hlive hmem
        exact Nat.lt_of_lt_of_le (h.within hlive hmem) hsize
      attributed := h.attributed.step hsize hframe fun m scope source tree hlive hnode hr htree => by
        obtain ⟨source₀, hlive₀, hnode₀, -, htrees⟩ := hsource m scope source hlive hnode hr
        exact (htrees tree htree).imp (fun hold => ⟨source₀, hlive₀, hnode₀, hold⟩) id
      formulas := fun hformula => by
        obtain ⟨m, scope, source, hlive, hnode, hr, htext⟩ := hformula
        obtain ⟨source₀, hlive₀, hnode₀, htexts, -⟩ := hsource m scope source hlive hnode hr
        exact h.formulas ⟨m, scope, source₀, hlive₀, hnode₀, hr, htexts htext⟩ }

theorem Tracks.of_node (h : g.Tracks R F) (hrecords : g'.records = g.records)
    (hsize : g'.cells.size = g.cells.size) (hnode : ∀ m, g'.node m = g.node m)
    (hlive : ∀ m, 0 < (g'.cell m).owners → 0 < (g.cell m).owners) : g'.Tracks R F :=
  h.step hrecords (Nat.le_of_eq hsize.symm) (fun m _ => congrArg Node.frame (hnode m))
    fun m _ source hm hm' _ => ⟨source, hlive m hm, hnode m ▸ hm', List.Subset.refl _, fun _ => .inl⟩

theorem Tracks.fades (h : g.Tracks R F) (hg : g.Fades g') : g'.Tracks R F :=
  h.of_node hg.records hg.size hg.node hg.live

theorem Tracks.addCell {node : Node} (h : g.Tracks R F) (cache : Option Value) (hnode : node.isMade = true) :
    (g.addCell node cache).2.Tracks R F := by
  refine h.step rfl (grows_addCell node cache).size (fun m hm => (grows_addCell node cache).frame m trivial hm)
    fun m scope source hlive hm _ => ?_
  rw [Graph.node, cell_addCell] at hm
  rw [cell_addCell] at hlive
  split at hm
  next =>
    subst hm
    cases hnode
  next hne =>
    rw [if_neg hne] at hlive
    exact ⟨source, hlive, hm, List.Subset.refl _, fun _ => .inl⟩

theorem Tracks.addCalculation (h : g.Tracks R F) (operation : Operation) (operands : List NodeId) (offset : Nat) :
    (g.addCalculation operation operands offset).2.Tracks R F := by
  have halike : g.Alike (g.subscribeAll operands (.node g.cells.size)).2 := alike_subscribeAll operands _
  rw [Graph.addCalculation]
  refine (h.of_node halike.records halike.size halike.node fun m hm => ?_).addCell none rfl
  rwa [owners_subscribeAll] at hm

theorem Tracks.setEvaluating (h : g.Tracks R F) (n : NodeId) (b : Bool) :
    (g.modifyCell n fun c => { c with evaluating := b }).Tracks R F :=
  h.of_node rfl size_modifyCell (cell_modifyCell_congr Cell.node (by exact fun _ => rfl)) fun m hm => by
    rwa [cell_modifyCell_congr Cell.owners (by exact fun _ => rfl)] at hm

/-- What is found in a record of `R` is held by one. -/
theorem Tracks.resolve? {name : String} {member : Member} (h : g.Tracks R F) (hg : g.Accounts ext)
    (hlive : 0 < (g.record r).owners) (hr : R r) (hm : g.resolve? r name = some member) :
    ∀ hold ∈ member.holds, hold.Within R g ∧ ∀ n, hold = .node n → n < g.cells.size := by
  obtain ⟨s, hs, hlive', hsub⟩ := resolve?_held_in hg (fun r r' hr hlive hmem => h.encloses r hr hlive _ hmem)
    hlive hr hm
  intro hold hmem
  refine ⟨h.encloses s hs hlive' hold (hsub hold hmem), fun n hn => ?_⟩
  subst hn
  exact h.within hlive' (hsub _ hmem)

/-- What part of a formula has been built into. -/
def Attributes (R : RecordId → Prop) (g : Graph) (formula : String) : Found NodeId RecordId → Prop
  | .value n => g.MadeFor R formula n
  | .scope r => R r ∧ 0 < (g.record r).owners
  | .list => True

theorem Tracks.attributes {name : String} {member : Member} (h : g.Tracks R F) (hg : g.Accounts ext)
    (hlive : 0 < (g.record r).owners) (hr : R r) (hm : g.resolve? r name = some member) (formula : String) :
    g.Attributes R formula member.found := by
  have hheld := h.resolve? hg hlive hr hm
  cases member with
  | node n =>
    obtain ⟨hwithin, hn⟩ := hheld _ (List.mem_singleton_self _)
    exact .given (hn n rfl) hwithin
  | record s => exact ⟨(hheld _ (List.mem_singleton_self _)).1, recordLive_of_resolve? hg hlive hm⟩
  | list items => trivial

mutual

/-- By the shape of the tree, whose tokens are those of the formula. -/
theorem Built.attributes (h : g.Tracks R F) (hg : g.Accounts ext) (hlive : 0 < (g.record scope).owners) (hr : R scope)
    (e : Expr) {found : Found NodeId RecordId} {k : Nat} {ts : List Token} (hb : g.Built scope e found)
    (hs : Spells k e ts) (ht : ∀ t ∈ ts, HasToken formula t) : g.Attributes R formula found := by
  cases e with
  | number digits suffix offset =>
    cases hs
    cases hb with
    | number hx hn => exact hn.madeFor
    | suffixed hx ha hn =>
      refine .calculation hn (ht _ List.mem_cons_self) (.convert digits _) fun d hd => ?_
      rw [List.mem_singleton.mp hd]
      exact ha.madeFor
  | text contents offset =>
    cases hb with
    | text hn => exact hn.madeFor
  | name name offset =>
    cases hb with
    | bool hb hn | constant hb hm hc hn => exact hn.madeFor
    | resolved hb hm => exact h.attributes hg hlive hr hm formula
  | group inner =>
    cases hb with
    | group hb =>
      cases hs with
      | group opening closing hs =>
        exact Built.attributes h hg hlive hr inner hb hs fun t hmem =>
          ht t (List.mem_cons_of_mem _ (List.mem_append_left _ hmem))
  | call name arguments offset =>
    cases hb with
    | call hf hbs hn =>
      cases hs with
      | call _ _ opening closing hs =>
        obtain rfl := Builtin.name_of_ofName? hf
        have hall := BuiltAll.attributes h hg hlive hr arguments hbs hs fun t hmem =>
          ht t (List.mem_cons_of_mem _ (List.mem_cons_of_mem _ (List.mem_append_left _ hmem)))
        exact .calculation hn (ht _ List.mem_cons_self) (.builtin _) fun d hd => hall _ (List.mem_map_of_mem hd)
  | field receiver name offset =>
    cases hs with
    | field _ dot _ hs =>
      have hreceiver : ∀ {found}, g.Built scope receiver found → g.Attributes R formula found := fun hb =>
        Built.attributes h hg hlive hr receiver hb hs fun t hmem => ht t (List.mem_append_left _ hmem)
      have hname := ht ⟨offset, .name name⟩ (List.mem_append_right _ (List.mem_cons_of_mem _ List.mem_cons_self))
      cases hb with
      | field hb hf hn =>
        subst hf
        refine .calculation hn hname (.field _) fun d hd => ?_
        rw [List.mem_singleton.mp hd]
        exact hreceiver hb
      | member hb hm =>
        obtain ⟨hinner, hlive'⟩ := hreceiver hb
        exact h.attributes hg hlive' hinner hm formula
  | method receiver name arguments offset =>
    cases hb with
    | method hb hf hbs hn =>
      cases hs with
      | method _ dot _ opening closing hs hss =>
        subst hf
        have hreceiver := Built.attributes h hg hlive hr receiver hb hs fun t hmem => ht t (List.mem_append_left _ hmem)
        have hall := BuiltAll.attributes h hg hlive hr arguments hbs hss fun t hmem =>
          ht t (List.mem_append_right _ (List.mem_cons_of_mem _ (List.mem_cons_of_mem _ (List.mem_cons_of_mem _
            (List.mem_append_left _ hmem)))))
        refine .calculation hn (ht _ (List.mem_append_right _ (List.mem_cons_of_mem _ List.mem_cons_self)))
          (.method _) fun d hd => ?_
        rcases List.mem_cons.mp hd with rfl | hd
        · exact hreceiver
        · exact hall _ (List.mem_map_of_mem hd)
  | unary op operand offset =>
    cases hb with
    | unary hb hn =>
      cases hs with
      | unary _ _ hk hs =>
        have hoperand := Built.attributes h hg hlive hr operand hb hs fun t hmem => ht t (List.mem_cons_of_mem _ hmem)
        have hmakes : (Lexeme.symbol op.mark).Makes (.unary op) := by
          cases op with
          | neg => exact .neg
          | not => exact .not
        refine .calculation hn (ht _ List.mem_cons_self) hmakes fun d hd => ?_
        rw [List.mem_singleton.mp hd]
        exact hoperand
  | binary op left right offset =>
    cases hb with
    | binary hl hr' hn =>
      cases hs with
      | binary _ _ hk hsl hsr =>
        have hleft := Built.attributes h hg hlive hr left hl hsl fun t hmem => ht t (List.mem_append_left _ hmem)
        have hright := Built.attributes h hg hlive hr right hr' hsr fun t hmem =>
          ht t (List.mem_append_right _ (List.mem_cons_of_mem _ hmem))
        refine .calculation hn (ht _ (List.mem_append_right _ List.mem_cons_self)) (.binary op) fun d hd => ?_
        rcases List.mem_cons.mp hd with rfl | hd
        · exact hleft
        · rw [List.mem_singleton.mp hd]
          exact hright

theorem BuiltAll.attributes (h : g.Tracks R F) (hg : g.Accounts ext) (hlive : 0 < (g.record scope).owners)
    (hr : R scope) (es : List Expr) {founds : List (Found NodeId RecordId)} {ts : List Token}
    (hb : g.BuiltAll scope es founds) (hs : SpellsAll es ts) (ht : ∀ t ∈ ts, HasToken formula t) :
    ∀ found ∈ founds, g.Attributes R formula found := by
  cases es with
  | nil =>
    cases hb
    exact fun _ hmem => (List.not_mem_nil hmem).elim
  | cons e es =>
    cases hb with
    | cons hb hbs =>
      intro found hmem
      cases hs with
      | last hs =>
        cases hbs
        rw [List.mem_singleton.mp hmem]
        exact Built.attributes h hg hlive hr e hb hs ht
      | more comma hs hss =>
        rcases List.mem_cons.mp hmem with rfl | hmem
        · exact Built.attributes h hg hlive hr e hb hs fun t hmem => ht t (List.mem_append_left _ hmem)
        · exact BuiltAll.attributes h hg hlive hr _ hbs hss (fun t hmem =>
            ht t (List.mem_append_right _ (List.mem_cons_of_mem _ hmem))) found hmem

end

theorem BuiltFrom.madeFor {text : String} {root : NodeId} (hb : g.BuiltFrom scope text root) (h : g.Tracks R F)
    (hg : g.Accounts ext) (hr : R scope) : g.MadeFor R text root := by
  obtain ⟨hlive, tokens, e, htokens, hspells, hbuilt⟩ := hb
  exact hbuilt.attributes h hg hlive hr e hspells fun t hmem => ⟨tokens, htokens, hmem⟩

/-- What a tree only names is held by a record of `R`. -/
theorem Named.within {e : Expr} {k : Nat} {ts : List Token} (hn : g.Named scope e n) (h : g.Tracks R F)
    (hg : g.Accounts ext) (hlive : 0 < (g.record scope).owners) (hr : R scope) (hs : Spells k e ts)
    (ht : ∀ t ∈ ts, HasToken formula t) : (g.node n).Within R := by
  induction hn generalizing k ts with
  | name hb hm => exact (h.resolve? hg hlive hr hm _ (List.mem_singleton_self _)).1
  | member hb hm =>
    cases hs with
    | field _ dot _ hs =>
      obtain ⟨hinner, hlive'⟩ := hb.attributes h hg hlive hr _ hs fun t hmem => ht t (List.mem_append_left _ hmem)
      exact (h.resolve? hg hlive' hinner hm _ (List.mem_singleton_self _)).1
  | group hn ih =>
    cases hs with
    | group opening closing hs =>
      exact ih hs fun t hmem => ht t (List.mem_cons_of_mem _ (List.mem_append_left _ hmem))

end

/-- Each tree that is put in place has been built for its expression, in its own record. -/
theorem abides_tracks (R : RecordId → Prop) (F : String → Prop) : Abides fun _ g => g.Tracks R F where
  fades h hf := h.fades hf
  constant v h := h.addCell (some v) rfl
  calculation operation offset h _ := h.addCalculation operation _ offset
  start n h := h.setEvaluating n true
  finish {_ _ n} h := h.setEvaluating n false
  takeBack {_ g n scope text old} h hnode := by
    have hframe : (Node.expression scope (.built old)).frame = (g.node n).frame := by
      rw [hnode]
      rfl
    refine h.step rfl (Nat.le_of_eq size_modifyCell.symm) (fun m _ => ?_) fun m scope' source hlive hm _ => ?_
    · rcases node_setNode g n (.expression scope (.built old)) m with hsame | ⟨rfl, hnew⟩
      · rw [hsame]
      · rw [hnew, hframe]
    · rw [cell_modifyCell_congr Cell.owners (by exact fun _ => rfl)] at hlive
      rcases node_setNode g n (.expression scope (.built old)) m with hsame | ⟨rfl, hnew⟩
      · exact ⟨source, hlive, hsame ▸ hm, List.Subset.refl _, fun _ => .inl⟩
      · rw [hnew] at hm
        cases hm
        exact ⟨.edited text old, hlive, hnode, List.subset_cons_self _ _, fun _ => .inl⟩
  install {_ g ext n root scope source text} h hg hlive hnode hp hbuilt _ _ := by
    have hself := core_installTree_self scope text root source.tree? (lt_size_of_owners_pos hlive)
    have hother : ∀ m, m ≠ n → ((installTree n scope text root source.tree?).run g).2.node m = g.node m :=
      fun m hm => congrArg (·.1) (core_installTree source.tree? hm)
    have hnew : ((installTree n scope text root source.tree?).run g).2.node n =
        .expression scope (.built ((installTree n scope text root source.tree?).run g).1) := congrArg (·.1) hself
    refine h.step (records_installTree g n scope text root source.tree?)
      (Nat.le_of_eq (size_installTree g n scope text root source.tree?).symm) (fun m _ => ?_)
        fun m scope' source' hlive' hm hr => ?_
    · by_cases hmn : m = n
      · rw [hmn, hnew, hnode]
        rfl
      · rw [hother m hmn]
    · by_cases hmn : m = n
      · subst hmn
        rw [hnew] at hm
        cases hm
        refine ⟨source, hlive, hnode, fun text' htext => ?_, fun tree htree => ?_⟩
        · rw [List.mem_singleton.mp htext]
          exact source.mem_texts_of_pending hp
        · cases htree
          exact .inr (hbuilt.madeFor h hg hr)
      · have hbefore := live_of_installTree source.tree? hlive'
        exact ⟨source', hbefore, hother m hmn ▸ hm, List.Subset.refl _, fun _ => .inl⟩

end Graph

end FormulaGraph
