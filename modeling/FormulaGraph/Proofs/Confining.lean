import FormulaGraph.Proofs.Trees

/-! How far a read goes. A set of nodes that is closed under what its nodes read, and under what their formulas
name if these wait to be built, is never left: nothing outside of it is worked out or changed, unless an edit
within it is taken back. -/

namespace FormulaGraph

open FormulaGraph.Graph

namespace Graph

/-- The tree names the node, or a part of it does. -/
inductive Mentions (g : Graph) (scope : RecordId) : Expr → NodeId → Prop
  | named {e : Expr} {n : NodeId} (h : g.Named scope e n) : Mentions g scope e n
  | group {e : Expr} {n : NodeId} (h : Mentions g scope e n) : Mentions g scope (.group e) n
  | argument {name : String} {es : List Expr} {offset : Nat} {e : Expr} {n : NodeId} (he : e ∈ es)
    (h : Mentions g scope e n) : Mentions g scope (.call name es offset) n
  | field {e : Expr} {name : String} {offset : Nat} {n : NodeId} (h : Mentions g scope e n) :
    Mentions g scope (.field e name offset) n
  | receiver {e : Expr} {name : String} {es : List Expr} {offset : Nat} {n : NodeId}
    (h : Mentions g scope e n) : Mentions g scope (.method e name es offset) n
  | parameter {receiver : Expr} {name : String} {es : List Expr} {offset : Nat} {e : Expr} {n : NodeId}
    (he : e ∈ es) (h : Mentions g scope e n) : Mentions g scope (.method receiver name es offset) n
  | unary {op : UnaryOp} {e : Expr} {offset : Nat} {n : NodeId} (h : Mentions g scope e n) :
    Mentions g scope (.unary op e offset) n
  | left {op : BinaryOp} {l r : Expr} {offset : Nat} {n : NodeId} (h : Mentions g scope l n) :
    Mentions g scope (.binary op l r offset) n
  | right {op : BinaryOp} {l r : Expr} {offset : Nat} {n : NodeId} (h : Mentions g scope r n) :
    Mentions g scope (.binary op l r offset) n

/-- All that the scan of the tokens finds is in `K`, and all that the tree names. -/
def Covers (g : Graph) (K : NodeId → Prop) (scope : RecordId) (text : String) : Prop :=
  ∃ tokens e, tokenize text = .ok tokens ∧ Spells 0 e tokens ∧
    (∀ name ∈ scopeNames tokens, ∀ n, g.resolve? scope name = some (.node n) → K n) ∧
      ∀ n, g.Mentions scope e n → K n

/-- Nothing leads out of `K`, which has room for all nodes that are still to be made. -/
structure Seals (g : Graph) (K : NodeId → Prop) : Prop where
  beyond (n : NodeId) : g.cells.size ≤ n → K n
  dependency (n d : NodeId) : K n → (g.cell n).dirty = true → (g.node n).isPending = false →
    d ∈ g.dependencies n → K d
  covers (n : NodeId) (scope : RecordId) (source : Source) (text : String) : K n →
    g.node n = .expression scope source → source.pending? = some text → g.Covers K scope text

/-- Later on, with no other formulas to build. -/
structure Continues (g₀ g : Graph) : Prop where
  records : g.records = g₀.records
  size : g₀.cells.size ≤ g.cells.size
  pending (n : NodeId) : (g.node n).isPending = true → g.node n = g₀.node n

/-- An edit within `K` has been taken back. -/
def Retracts (g₀ : Graph) (K : NodeId → Prop) (g : Graph) : Prop :=
  ∃ n scope text old, K n ∧ g₀.node n = .expression scope (.edited text old) ∧
    g.node n = .expression scope (.built old)

/-- Nothing leads out of `K`, and nothing has happened there. -/
structure Fenced (g₀ : Graph) (K : NodeId → Prop) (g : Graph) : Prop where
  dependency (n d : NodeId) : K n → (g.cell n).dirty = true → (g.node n).isPending = false →
    d ∈ g.dependencies n → K d
  outside (n : NodeId) : ¬ K n →
    (g.cell n).evaluations = (g₀.cell n).evaluations ∧ g.node n = g₀.node n

structure Confined (g₀ : Graph) (K : NodeId → Prop) (g : Graph) : Prop extends g₀.Continues g where
  fenced : g₀.Retracts K g ∨ g₀.Fenced K g

/-- No node has been changed, and none has been worked out. -/
structure Still (g g' : Graph) : Prop where
  records : g'.records = g.records
  size : g'.cells.size = g.cells.size
  node (m : NodeId) : g'.node m = g.node m
  dirty (m : NodeId) : (g'.cell m).dirty = (g.cell m).dirty
  evaluations (m : NodeId) : (g'.cell m).evaluations = (g.cell m).evaluations

variable {g₀ g g' g'' : Graph} {K : NodeId → Prop} {n d : NodeId} {holds : List Hold} {scope : RecordId}

theorem Still.trans (h : g.Still g') (h' : g'.Still g'') : g.Still g'' where
  records := h'.records.trans h.records
  size := h'.size.trans h.size
  node m := (h'.node m).trans (h.node m)
  dirty m := (h'.dirty m).trans (h.dirty m)
  evaluations m := (h'.evaluations m).trans (h.evaluations m)

theorem still_modifyCell {f : Cell → Cell} (hnode : ∀ c, (f c).node = c.node) (hdirty : ∀ c, (f c).dirty = c.dirty)
    (hevaluations : ∀ c, (f c).evaluations = c.evaluations) : g.Still (g.modifyCell n f) where
  records := rfl
  size := size_modifyCell
  node := cell_modifyCell_congr Cell.node hnode
  dirty := cell_modifyCell_congr Cell.dirty hdirty
  evaluations := cell_modifyCell_congr Cell.evaluations hevaluations

theorem evaluations_unsubscribe (t : Ticket) (m : NodeId) :
    ((g.unsubscribe t).cell m).evaluations = (g.cell m).evaluations := by
  rw [unsubscribe]
  split
  · exact cell_modifyCell_congr Cell.evaluations (by exact fun _ => rfl) m
  · rfl

theorem evaluations_release (m : NodeId) : ((g.release holds).cell m).evaluations = (g.cell m).evaluations := by
  fun_induction release g holds with
  | case1 => rfl
  | case2 g n rest hz ih => exact ih
  | case3 g n rest left hk more ih =>
    exact ih.trans (cell_modifyCell_congr Cell.evaluations (by exact fun _ => rfl) m)
  | case4 g r rest hz ih => exact ih
  | case5 g r rest left hk more ih => exact ih
  | case6 g t rest ih => exact ih.trans (evaluations_unsubscribe t m)

theorem still_release (h : ∀ x ∈ holds, x.isRecord = false) : g.Still (g.release holds) where
  records := records_release h
  size := size_release
  node m := congrArg (·.1) (core_release m)
  dirty m := congrArg (·.2.2.1) (core_release m)
  evaluations := evaluations_release

theorem still_retain_node : g.Still (g.retain (.node n)) :=
  still_modifyCell (by exact fun _ => rfl) (by exact fun _ => rfl) (by exact fun _ => rfl)

theorem still_setEvaluating (evaluating : Bool) : g.Still (g.modifyCell n fun c => { c with evaluating }) :=
  still_modifyCell (by exact fun _ => rfl) (by exact fun _ => rfl) (by exact fun _ => rfl)

theorem still_subscribe (l : Listener) : g.Still (g.subscribe n l).2 :=
  still_modifyCell (by exact fun _ => rfl) (by exact fun _ => rfl) (by exact fun _ => rfl)

theorem still_subscribeAll (sources : List NodeId) (l : Listener) : g.Still (g.subscribeAll sources l).2 := by
  induction sources generalizing g with
  | nil => exact ⟨rfl, rfl, fun _ => rfl, fun _ => rfl, fun _ => rfl⟩
  | cons source sources ih => exact (still_subscribe l).trans ih

namespace Continues

theorem refl (g : Graph) : g.Continues g := ⟨rfl, Nat.le_refl _, fun _ _ => rfl⟩

theorem of_node (h : g₀.Continues g) (hrecords : g'.records = g.records) (hsize : g'.cells.size = g.cells.size)
    (hnode : ∀ m, g'.node m = g.node m) : g₀.Continues g' where
  records := hrecords.trans h.records
  size := Nat.le_trans h.size (Nat.le_of_eq hsize.symm)
  pending n hn := by
    rw [hnode] at hn ⊢
    exact h.pending n hn

theorem addCell {node : Node} (h : g₀.Continues g) (hmade : node.isMade = true) (cache : Option Value) :
    g₀.Continues (g.addCell node cache).2 where
  records := h.records
  size := by
    rw [size_addCell]
    exact Nat.le_succ_of_le h.size
  pending n hn := by
    rw [Graph.node, cell_addCell] at hn ⊢
    by_cases he : n = g.cells.size
    · rw [if_pos he] at hn
      cases node with
      | constant | calculation => cases hn
      | input | expression => cases hmade
    · rw [if_neg he] at hn ⊢
      exact h.pending n hn

/-- A tree is put in place, an old one or a new one. -/
theorem setTree (h : g₀.Continues g) (tree : Tree) :
    g₀.Continues (g.modifyCell n fun c => { c with node := .expression scope (.built tree) }) where
  records := h.records
  size := by
    rw [size_modifyCell]
    exact h.size
  pending m hm := by
    rw [Graph.node, cell_modifyCell] at hm ⊢
    split at hm
    · cases hm
    next hne =>
      rw [if_neg hne]
      exact h.pending m hm

end Continues

theorem Retracts.of_node (h : g₀.Retracts K g) (hnode : ∀ m, g'.node m = g.node m) : g₀.Retracts K g' := by
  obtain ⟨n, scope, text, old, hn, hbefore, hafter⟩ := h
  exact ⟨n, scope, text, old, hn, hbefore, (hnode n).trans hafter⟩

theorem Retracts.addCell (h : g₀.Retracts K g) (node : Node) (cache : Option Value) :
    g₀.Retracts K (g.addCell node cache).2 := by
  obtain ⟨n, scope, text, old, hn, hbefore, hafter⟩ := h
  refine ⟨n, scope, text, old, hn, hbefore, ?_⟩
  rw [Graph.node, cell_addCell, if_neg, ← Graph.node, hafter]
  rintro rfl
  rw [Graph.node, cell_size] at hafter
  cases hafter

theorem Retracts.setTree (h : g₀.Retracts K g) (hpending : (g.node n).isPending = true) (tree : Tree) :
    g₀.Retracts K (g.modifyCell n fun c => { c with node := .expression scope (.built tree) }) := by
  obtain ⟨m, scope', text, old, hm, hbefore, hafter⟩ := h
  refine ⟨m, scope', text, old, hm, hbefore, ?_⟩
  rw [Graph.node, cell_modifyCell_of_ne, ← Graph.node, hafter]
  rintro rfl
  rw [hafter] at hpending
  cases hpending

/-- With an edit within `K` taken back. -/
def Retracted (g₀ : Graph) (K : NodeId → Prop) (_busy : List NodeId) (g : Graph) : Prop :=
  g₀.Continues g ∧ g₀.Retracts K g

/-- An edit that has been taken back stays so. -/
theorem lasts_retracted (g₀ : Graph) (K : NodeId → Prop) : Lasts (g₀.Retracted K) where
  alike h halike := ⟨h.1.of_node halike.records halike.size halike.node, h.2.of_node halike.node⟩
  add {_ g node} cache h hmade _ := ⟨h.1.addCell hmade cache, h.2.addCell node cache⟩
  start _ h :=
    have hnode := cell_modifyCell_congr Cell.node (by exact fun _ => rfl)
    ⟨h.1.of_node rfl size_modifyCell hnode, h.2.of_node hnode⟩
  finish h :=
    have hnode := cell_modifyCell_congr Cell.node (by exact fun _ => rfl)
    ⟨h.1.of_node rfl size_modifyCell hnode, h.2.of_node hnode⟩
  takeBack h hnode := ⟨h.1.setTree _, h.2.setTree (by rw [hnode]; rfl) _⟩
  install h hnode hp _ _ _ := ⟨h.1.setTree _, h.2.setTree (by
    rw [hnode]
    exact Option.isSome_of_eq_some hp) _⟩

namespace Confined

theorem retracted {busy : List NodeId} (h : g₀.Retracted K busy g) : g₀.Confined K g := ⟨h.1, .inl h.2⟩

/-- What is done stays confined if it leaves what has been taken back so, and is confined from within the fence. -/
theorem of_fenced (h : g₀.Confined K g) (hback : g₀.Retracted K [] g → g₀.Retracted K [] g')
    (hfenced : g₀.Fenced K g → g₀.Confined K g') : g₀.Confined K g' :=
  h.fenced.elim (fun hretracts => .retracted (hback ⟨h.toContinues, hretracts⟩)) hfenced

theorem still (h : g₀.Confined K g) (hstill : g.Still g') : g₀.Confined K g' where
  toContinues := h.of_node hstill.records hstill.size hstill.node
  fenced := by
    refine h.fenced.imp (fun hback => hback.of_node hstill.node) fun hfenced => ⟨fun n d hn hdirty hsteady hd => ?_,
      fun n hn => ?_⟩
    · rw [hstill.dirty] at hdirty
      rw [hstill.node] at hsteady
      rw [dependencies, hstill.node] at hd
      exact hfenced.dependency n d hn hdirty hsteady hd
    · rw [hstill.evaluations, hstill.node]
      exact hfenced.outside n hn

theorem release (h : g₀.Confined K g) (hrecords : ∀ x ∈ holds, x.isRecord = false) :
    g₀.Confined K (g.release holds) :=
  h.still (still_release hrecords)

/-- A node is made from nodes in `K`. -/
theorem addCell {node : Node} (h : g₀.Confined K g) (hbeyond : ∀ n, g₀.cells.size ≤ n → K n)
    (hmade : node.isMade = true) (hoperands : ∀ d ∈ node.dependencies, K d) (cache : Option Value) :
    g₀.Confined K (g.addCell node cache).2 := by
  refine ⟨h.toContinues.addCell hmade cache, h.fenced.imp (fun hback => hback.addCell node cache) fun hfenced =>
    ⟨fun m d hm hdirty hsteady hd => ?_, fun m hm => ?_⟩⟩
  · by_cases he : m = g.cells.size
    · rw [dependencies, Graph.node, cell_addCell, if_pos he] at hd
      exact hoperands d hd
    · rw [cell_addCell, if_neg he] at hdirty
      rw [Graph.node, cell_addCell, if_neg he] at hsteady
      rw [dependencies, Graph.node, cell_addCell, if_neg he] at hd
      exact hfenced.dependency m d hm hdirty hsteady hd
  · have he : m ≠ g.cells.size := by
      rintro rfl
      exact hm (hbeyond _ h.size)
    rw [Graph.node, cell_addCell, if_neg he]
    exact hfenced.outside m hm

theorem addCalculation (h : g₀.Confined K g) (hbeyond : ∀ n, g₀.cells.size ≤ n → K n) {operands : List NodeId}
    (hoperands : ∀ d ∈ operands, K d) (operation : Operation) (offset : Nat) :
    g₀.Confined K (g.addCalculation operation operands offset).2 := by
  have hsubscribed := h.still (still_subscribeAll operands (.node g.cells.size))
  rw [Graph.addCalculation]
  exact hsubscribed.addCell hbeyond rfl (by exact hoperands) none

/-- The edit of a node in `K` is taken back. -/
theorem takeBack {text : String} {old : Tree} (h : g₀.Confined K g) (hlt : n < g.cells.size) (hn : K n)
    (hnode : g.node n = .expression scope (.edited text old)) :
    g₀.Confined K (g.modifyCell n fun c => { c with node := .expression scope (.built old) }) := by
  refine ⟨h.toContinues.setTree old, .inl ⟨n, scope, text, old, hn, ?_, ?_⟩⟩
  · rw [← h.pending n (by rw [hnode]; rfl), hnode]
  · rw [Graph.node, cell_modifyCell_self hlt]

/-- A node in `K` comes by a tree whose root is in `K`. -/
theorem setTree {tree : Tree} (h : g₀.Confined K g) (hn : K n) (hpending : (g.node n).isPending = true)
    (hroot : K tree.root) :
    g₀.Confined K (g.modifyCell n fun c => { c with node := .expression scope (.built tree) }) := by
  refine ⟨h.toContinues.setTree tree, h.fenced.imp (fun hback => hback.setTree hpending tree) fun hfenced =>
    ⟨fun m d hm hdirty hsteady hd => ?_, fun m hm => ?_⟩⟩
  · rw [cell_modifyCell_congr Cell.dirty (by exact fun _ => rfl)] at hdirty
    rcases node_setNode g n (.expression scope (.built tree)) m with hsame | ⟨-, hnew⟩
    · rw [hsame] at hsteady
      rw [dependencies, hsame] at hd
      exact hfenced.dependency m d hm hdirty hsteady hd
    · rw [dependencies, hnew] at hd
      rw [List.mem_singleton.mp hd]
      exact hroot
  · rw [cell_modifyCell_congr Cell.evaluations (by exact fun _ => rfl), Graph.node,
      cell_modifyCell_of_ne (by rintro rfl; exact hm hn)]
    exact hfenced.outside m hm

/-- What a node in `K` has come to is noted. -/
theorem keepResult (h : g₀.Confined K g) (hn : K n) (result : Checked Value) :
    g₀.Confined K ((keepResult n result).run g).2 := by
  have hkept : ∀ f : Cell → Cell, (∀ c, (f c).node = c.node) → (∀ c, (f c).dirty = true → c.dirty = true) →
      g₀.Confined K (g.modifyCell n f) := by
    intro f hf hdirties
    have hnode : ∀ m, (g.modifyCell n f).node m = g.node m := cell_modifyCell_congr Cell.node hf
    refine ⟨h.of_node rfl size_modifyCell hnode, h.fenced.imp (fun hback => hback.of_node hnode) fun hfenced =>
      ⟨fun m d hm hdirty hsteady hd => ?_, fun m hm => ?_⟩⟩
    · rw [hnode] at hsteady
      rw [dependencies, hnode] at hd
      refine hfenced.dependency m d hm ?_ hsteady hd
      rw [cell_modifyCell] at hdirty
      split at hdirty
      next hmn =>
        rw [hmn.1]
        exact hdirties _ hdirty
      · exact hdirty
    · rw [hnode, cell_modifyCell_of_ne (by rintro rfl; exact hm hn)]
      exact hfenced.outside m hm
  cases result with
  | ok v => exact hkept _ (by exact fun _ => rfl) fun _ he => by cases he
  | error e => exact hkept _ (by exact fun _ => rfl) fun _ he => he

end Confined

/-- What leads to a record is told by the records alone. -/
theorem Built.scope_of_records (h : g'.records = g.records) (e : Expr) {r : RecordId}
    (hbuilt : g.Built scope e (.scope r)) : g'.Built scope e (.scope r) := by
  generalize hfound : Found.scope r = found at hbuilt
  cases e with
  | name name offset =>
    cases hbuilt with
    | resolved hb hr => exact .resolved hb ((resolve?_of_records h scope name).trans hr)
    | bool | constant => cases hfound
  | group inner =>
    cases hbuilt with
    | group hinner =>
      subst hfound
      exact .group (hinner.scope_of_records h inner)
  | field receiver name offset =>
    cases hbuilt with
    | member hreceiver hr =>
      exact .member (hreceiver.scope_of_records h receiver) ((resolve?_of_records h _ name).trans hr)
    | field => cases hfound
  | number | text | call | method | unary | binary => cases hbuilt <;> cases hfound

theorem Named.of_records (h : g'.records = g.records) {e : Expr} (hnamed : g.Named scope e n) :
    g'.Named scope e n := by
  induction hnamed with
  | name hb hr => exact .name hb ((resolve?_of_records h scope _).trans hr)
  | member hreceiver hr =>
    exact .member (hreceiver.scope_of_records h _) ((resolve?_of_records h _ _).trans hr)
  | group _ ih => exact .group ih

theorem Mentions.of_records (h : g'.records = g.records) {e : Expr} (hm : g.Mentions scope e n) :
    g'.Mentions scope e n := by
  induction hm with
  | named hnamed => exact .named (hnamed.of_records h)
  | group _ ih => exact .group ih
  | argument he _ ih => exact .argument he ih
  | field _ ih => exact .field ih
  | receiver _ ih => exact .receiver ih
  | parameter he _ ih => exact .parameter he ih
  | unary _ ih => exact .unary ih
  | left _ ih => exact .left ih
  | right _ ih => exact .right ih

end Graph

/-- A read stays confined. -/
structure Confines (g₀ : Graph) (K : NodeId → Prop) (read : Reader) : Prop where
  reads : Reads read
  /-- Of the nodes outside `K` no more is known once an edit within `K` has been taken back. -/
  retracted : Keeps (g₀.Retracted K) read
  confined {g : Graph} {ext : List Hold} {told : List NodeId} {n : NodeId} : g.Sound ext told → g.Anchored ext n →
    K n → g₀.Confined K g → g₀.Confined K ((read n).run.run g).2

/-- Confined, whatever comes of it, and what comes of it is as it should be. -/
def Stays (g₀ : Graph) (K : NodeId → Prop) {β : Type} (x : OptionT (StateM Graph) β) (g : Graph)
    (Q : β → Graph → Prop) : Prop :=
  g₀.Confined K (x.run.run g).2 ∧ Yields x g Q

section

variable {g₀ g g' : Graph} {K : NodeId → Prop} {ext : List Hold} {told : List NodeId} {n : NodeId}
  {scope : RecordId} {source : Source} {read : Reader} {β γ : Type}

theorem Stays.pure {b : β} {Q : β → Graph → Prop} (hg : g₀.Confined K g) (h : Q b g) :
    Stays g₀ K (pure b) g Q :=
  ⟨hg, .pure h⟩

theorem Stays.failure {Q : β → Graph → Prop} (hg : g₀.Confined K g) :
    Stays g₀ K (failure : OptionT (StateM Graph) β) g Q :=
  ⟨hg, .failure⟩

theorem Stays.lift {x : StateM Graph β} {Q : β → Graph → Prop} (hg : g₀.Confined K (x.run g).2)
    (h : Q (x.run g).1 (x.run g).2) : Stays g₀ K (liftM x) g Q :=
  ⟨hg, .lift h⟩

theorem Stays.bind {x : OptionT (StateM Graph) γ} {f : γ → OptionT (StateM Graph) β} {P : γ → Graph → Prop}
    {Q : β → Graph → Prop} (hx : Stays g₀ K x g P)
    (hf : ∀ c g', g₀.Confined K g' → P c g' → Stays g₀ K (f c) g' Q) : Stays g₀ K (x >>= f) g Q := by
  obtain ⟨hconfined, hyields⟩ := hx
  have hstays : ∀ c g', x.run.run g = (some c, g') → Stays g₀ K (f c) g' Q := fun c g' hr =>
    hf c g' (by rwa [hr] at hconfined) (hyields c g' hr)
  rw [Stays, Yields, run_bind_option]
  rcases hr : x.run.run g with ⟨c, g'⟩
  cases c with
  | none =>
    rw [hr] at hconfined
    exact ⟨hconfined, fun _ _ he => by cases he⟩
  | some c => exact hstays c g' hr

theorem Stays.mono {x : OptionT (StateM Graph) β} {Q Q' : β → Graph → Prop} (h : Stays g₀ K x g Q)
    (hQ : ∀ b g', Q b g' → Q' b g') : Stays g₀ K x g Q' :=
  ⟨h.1, h.2.mono hQ⟩

/-- What is known to come of it comes of it all the same. -/
theorem Stays.and {x : OptionT (StateM Graph) β} {Q Q' : β → Graph → Prop} (h : Stays g₀ K x g Q)
    (h' : Yields x g Q') : Stays g₀ K x g fun b g' => Q b g' ∧ Q' b g' :=
  ⟨h.1, fun b g' hrun => ⟨h.2 b g' hrun, h' b g' hrun⟩⟩

end

/-- What is found is in `K`, if it is a node. -/
def Found.In (K : NodeId → Prop) (found : Found NodeId RecordId) : Prop := ∀ n, found = .value n → K n

theorem Found.in_value {K : NodeId → Prop} {n : NodeId} (h : K n) : (Found.value n : Found NodeId RecordId).In K := by
  intro m hm
  cases hm
  exact h

section

variable {g₀ g g' : Graph} {K : NodeId → Prop} {ext : List Hold} {told : List NodeId} {n : NodeId}
  {scope : RecordId} {source : Source} {read : Reader}

theorem literal_stays (hbeyond : ∀ n, g₀.cells.size ≤ n → K n) (value : Value) (hg : g₀.Confined K g) :
    Stays g₀ K (liftM ((graphBuilder read).literal value)) g fun n _ => K n :=
  .lift (hg.addCell hbeyond rfl (by simp [Node.dependencies]) (some value)) (hbeyond _ hg.size)

theorem calculated_stays (hbeyond : ∀ n, g₀.cells.size ≤ n → K n) (hconf : Confines g₀ K read)
    (operation : Operation) {arguments : List NodeId} (offset : Nat)
    (h : g.Sound (arguments.map .node ++ ext) told) (harguments : ∀ d ∈ arguments, K d) (hg : g₀.Confined K g) :
    Stays g₀ K ((graphBuilder read).calculated operation arguments offset) g fun x _ => x.operand.In K := by
  obtain ⟨hadded, -⟩ := h.addCalculation operation offset
  have hnew : K (g.addCalculation operation arguments offset).1 := by
    rw [(node_addCalculation g operation arguments offset).1]
    exact hbeyond _ hg.size
  have hafter := hconf.confined hadded (.outside List.mem_cons_self) hnew
    (hg.addCalculation hbeyond harguments operation offset)
  have hcalculate : Stays g₀ K (liftM ((graphBuilder read).calculate operation arguments offset)) g
      fun r _ => ∀ n, r = .ok n → K n := by
    refine .lift ?_ ?_
    · rw [run_calculate]
      generalize (read (g.addCalculation operation arguments offset).1).run.run
        (g.addCalculation operation arguments offset).2 = r at hafter
      rcases r with ⟨e | v, g'⟩
      · exact hafter.release (by simp [Hold.isRecord])
      · exact hafter
    · rw [run_calculate]
      rcases (read (g.addCalculation operation arguments offset).1).run.run
        (g.addCalculation operation arguments offset).2 with ⟨e | v, g'⟩
      · exact fun _ he => by cases he
      · exact fun n he => by cases he; exact hnew
  refine hcalculate.bind fun r g' hg' hr => ?_
  cases r with
  | ok n => exact .pure hg' (Found.in_value (hr n rfl))
  | error e => exact .failure hg'

theorem resolve_stays (name : String) (hr : ∀ n, g.resolve? scope name = some (.node n) → K n)
    (hg : g₀.Confined K g) :
    Stays g₀ K (liftM ((graphBuilder read).resolve scope name)) g fun found _ =>
      ∀ x, found = some x → x.In K := by
  have hrun := run_resolve read scope name g
  rcases hf : g.resolve? scope name with _ | ⟨n | r | items⟩ <;> rw [hf] at hrun
  · exact .lift (by rw [hrun]; exact hg) (by rw [hrun]; exact fun _ he => by cases he)
  · refine .lift (by rw [hrun]; exact hg.still still_retain_node) ?_
    rw [hrun]
    exact fun x hx => by cases hx; exact Found.in_value (hr n hf)
  · refine .lift (by rw [hrun]; exact hg) ?_
    rw [hrun]
    exact fun x hx => by cases hx; exact fun _ he => by cases he
  · refine .lift (by rw [hrun]; exact hg) ?_
    rw [hrun]
    exact fun x hx => by cases hx; exact fun _ he => by cases he

theorem named_stays (hbeyond : ∀ n, g₀.cells.size ≤ n → K n) (name : String) (offset : Nat)
    (hK : ∀ n, g.Mentions scope (.name name offset) n → K n) (hg : g₀.Confined K g) :
    Stays g₀ K ((graphBuilder read).named scope name offset) g fun x _ => x.operand.In K := by
  have hliteral : ∀ {g' : Graph} (value : Value), g₀.Confined K g' →
      Stays g₀ K (do return ⟨.value (← liftM ((graphBuilder read).literal value)), offset, name⟩) g'
        fun (x : Entry NodeId RecordId) _ => x.operand.In K := fun value hg' =>
    (literal_stays hbeyond value hg').bind fun n g'' hg'' hn => .pure hg'' (Found.in_value hn)
  unfold Builder.named
  by_cases ht : name = "true"
  · rw [if_pos ht]
    exact hliteral (.bool true) hg
  · by_cases hf : name = "false"
    · rw [if_neg ht, if_pos hf]
      exact hliteral (.bool false) hg
    · rw [if_neg ht, if_neg hf]
      have hb : boolNamed? name = none := (if_neg ht).trans (if_neg hf)
      refine (resolve_stays name (fun n hn => hK n (.named (.name hb hn))) hg).bind fun found g' hg' hfound => ?_
      cases found with
      | some x => exact .pure hg' (hfound x rfl)
      | none =>
        cases namedConstant? name with
        | none => exact .failure hg'
        | some value => exact hliteral value hg'

theorem only_stays (x : Entry NodeId RecordId) (hg : g₀.Confined K g) :
    Stays g₀ K x.only g fun a g' => g' = g ∧ x.operand = .value a := by
  refine ⟨?_, only_yields x⟩
  unfold Entry.only
  cases x.operand <;> exact hg

theorem onlyValues_stays (entries : List (Entry NodeId RecordId)) (hg : g₀.Confined K g) :
    Stays g₀ K (onlyValues entries) g fun values g' =>
      g' = g ∧ entries.map Entry.operand = values.map Found.value ∧
        entries.filterMap (·.operand.value?) = values := by
  refine ⟨?_, onlyValues_yields entries⟩
  unfold onlyValues
  cases takeValues entries [] <;> exact hg

theorem kind_stays (hconf : Confines g₀ K read) (h : g.Sound ext told) (hn : .node n ∈ ext) (hK : K n)
    (hg : g₀.Confined K g) {Q : Checked Kind → Graph → Prop}
    (hQ : Yields (liftM ((graphBuilder read).kind n)) g Q) :
    Stays g₀ K (liftM ((graphBuilder read).kind n)) g Q :=
  ⟨hconf.confined h (.outside hn) hK hg, hQ⟩

theorem member_stays {x : Entry NodeId RecordId} {name : String} (hbeyond : ∀ n, g₀.cells.size ≤ n → K n)
    (hconf : Confines g₀ K read) (h : g.Sound (x.operand.value?.toList.map .node ++ ext) told) (offset : Nat)
    (hx : x.operand.In K) (hK : ∀ r, x.operand = .scope r → ∀ n, g.resolve? r name = some (.node n) → K n)
    (hg : g₀.Confined K g) :
    Stays g₀ K ((graphBuilder read).member x name offset) g fun y _ => y.operand.In K := by
  unfold Builder.member
  cases he : x.operand with
  | list => exact .failure hg
  | scope r =>
    refine (resolve_stays name (hK r he) hg).bind fun found g₁ hg₁ hfound => ?_
    cases found with
    | none => exact .failure hg₁
    | some y => exact .pure hg₁ (hfound y rfl)
  | value a =>
    rw [he] at h
    refine (kind_stays hconf h List.mem_cons_self (hx a he) hg (kind_yields hconf.reads h List.mem_cons_self)).bind
      fun kind g₁ hg₁ hheld => ?_
    cases kind with
    | error e => exact .failure hg₁
    | ok kind =>
      dsimp only
      cases kind.field? name with
      | none => exact .failure hg₁
      | some f => exact calculated_stays hbeyond hconf _ offset hheld.1 (by simpa using hx a he) hg₁

theorem methodOf_stays {x : Entry NodeId RecordId} {name : String} (hconf : Confines g₀ K read)
    (h : g.Sound (x.operand.value?.toList.map .node ++ ext) told) (hx : x.operand.In K) (hg : g₀.Confined K g) :
    Stays g₀ K ((graphBuilder read).methodOf x name) g fun (a, f) g' =>
      x.operand = .value a ∧ (g'.Sound (x.operand.value?.toList.map .node ++ ext) told ∧ g.Grows g') ∧
        f.name = name := by
  refine ⟨?_, methodOf_yields hconf.reads h⟩
  have hstays : Stays g₀ K ((graphBuilder read).methodOf x name) g fun _ _ => True := by
    refine (only_stays x hg).bind fun a g₁ hg₁ ⟨he, hxa⟩ => ?_
    subst he
    rw [hxa] at h
    refine (kind_stays hconf h List.mem_cons_self (hx a hxa) hg₁ (kind_yields hconf.reads h List.mem_cons_self)).bind
      fun kind g₂ hg₂ _ => ?_
    cases kind with
    | error e => exact .failure hg₂
    | ok kind =>
      dsimp only
      cases kind.method? name with
      | none => exact .failure hg₂
      | some f => exact .pure hg₂ trivial
  exact hstays.1

mutual

theorem build_stays (hbeyond : ∀ n, g₀.cells.size ≤ n → K n) (hconf : Confines g₀ K read)
    (e : Expr) {g : Graph} {ext : List Hold} (h : g.Sound ext told) (hr : 0 < (g.record scope).owners)
    (hK : ∀ n, g.Mentions scope e n → K n) (hg : g₀.Confined K g) :
    Stays g₀ K ((graphBuilder read).build scope e) g fun x g' =>
      x.operand.In K ∧ g.HoldsFound ext told x.operand g' ∧ g'.Built scope e x.operand := by
  suffices hstays : Stays g₀ K ((graphBuilder read).build scope e) g fun x _ => x.operand.In K from
    (hstays.and (build_yields hconf.reads e h hr)).mono fun _ _ ⟨hx, hheld, hbuilt, _⟩ => ⟨hx, hheld, hbuilt⟩
  cases e with
  | number digits suffix offset =>
    rw [Builder.build]
    cases readNumber? digits.toList with
    | none => exact .failure hg
    | some x =>
      refine ((literal_stays hbeyond (.scalar x) hg).and (literal_yields (.scalar x) h)).bind
        fun a g' hg' ⟨ha, hheld, _⟩ => ?_
      cases suffix with
      | none => exact .pure hg' (Found.in_value ha)
      | some suffix => exact calculated_stays hbeyond hconf _ offset hheld.1 (by simpa using ha) hg'
  | text contents offset =>
    rw [Builder.build]
    exact (literal_stays hbeyond _ hg).bind fun n g' hg' hn => .pure hg' (Found.in_value hn)
  | name name offset =>
    rw [Builder.build]
    exact named_stays hbeyond name offset hK hg
  | group inner =>
    rw [Builder.build]
    exact (build_stays hbeyond hconf inner h hr (fun n hn => hK n (.group hn)) hg).mono fun _ _ hx => hx.1
  | call name arguments offset =>
    rw [Builder.build]
    cases Builtin.ofName? name with
    | none => exact .failure hg
    | some f =>
      refine (buildAll_stays hbeyond hconf arguments h hr (fun e he n hn => hK n (.argument he hn)) hg).bind
        fun xs g₁ hg₁ ⟨hxs, hheld⟩ => ?_
      refine (onlyValues_stays xs hg₁).bind fun values g₂ hg₂ ⟨he, _, hvalues⟩ => ?_
      subst he
      rw [hvalues] at hheld hxs
      by_cases htakes : f.takes values.length = true
      · rw [if_pos htakes]
        exact calculated_stays hbeyond hconf _ offset hheld.1 hxs hg₂
      · rw [if_neg htakes]
        exact .failure hg₂
  | field receiver name offset =>
    rw [Builder.build]
    refine (build_stays hbeyond hconf receiver h hr (fun n hn => hK n (.field hn)) hg).bind
      fun x g₁ hg₁ ⟨hx, hheld, hbuilt⟩ => ?_
    have hrecords := hheld.1.2.records.symm
    refine member_stays hbeyond hconf hheld.1.1 offset hx (fun r hxr n hn => ?_) hg₁
    rw [hxr] at hbuilt
    have hreceiver := hbuilt.scope_of_records hrecords receiver
    exact hK n (.named (.member hreceiver ((resolve?_of_records hrecords r name).trans hn)))
  | method receiver name arguments offset =>
    rw [Builder.build]
    refine (build_stays hbeyond hconf receiver h hr (fun n hn => hK n (.receiver hn)) hg).bind
      fun x g₁ hg₁ ⟨hxK, hheld, _⟩ => ?_
    refine (methodOf_stays hconf hheld.1.1 hxK hg₁).bind fun (a, f) g₂ hg₂ ⟨hx, hheld', _⟩ => ?_
    have hrecords := (hheld.1.2.trans hheld'.2).records
    rw [hx] at hheld'
    refine (buildAll_stays hbeyond hconf arguments hheld'.1 (hheld'.2.record_live (hheld.1.2.record_live hr))
      (fun e he n hn => hK n (.parameter he (hn.of_records hrecords.symm))) hg₂).bind
        fun xs g₃ hg₃ ⟨hxs, hheld''⟩ => ?_
    refine (onlyValues_stays xs hg₃).bind fun values g₄ hg₄ ⟨he, _, hvalues⟩ => ?_
    subst he
    rw [hvalues] at hheld'' hxs
    by_cases harity : values.length = f.arity
    · rw [if_pos harity]
      have hsound : g₄.Sound ((a :: values).map .node ++ ext) told := hheld''.1.perm List.perm_middle
      refine calculated_stays hbeyond hconf _ offset hsound (fun d hd => ?_) hg₄
      rcases List.mem_cons.mp hd with rfl | hd
      · exact hxK _ hx
      · exact hxs d hd
    · rw [if_neg harity]
      exact .failure hg₄
  | unary op operand offset =>
    rw [Builder.build]
    refine (build_stays hbeyond hconf operand h hr (fun n hn => hK n (.unary hn)) hg).bind
      fun x g₁ hg₁ ⟨hxK, hheld, _⟩ => ?_
    refine (only_stays x hg₁).bind fun a g₂ hg₂ ⟨he, hx⟩ => ?_
    subst he
    rw [hx] at hheld
    exact calculated_stays hbeyond hconf _ offset hheld.1.1 (by simpa using hxK a hx) hg₂
  | binary op left right offset =>
    rw [Builder.build]
    refine (build_stays hbeyond hconf left h hr (fun n hn => hK n (.left hn)) hg).bind
      fun x g₁ hg₁ ⟨hxK, hheld, _⟩ => ?_
    refine (build_stays hbeyond hconf right hheld.1.1 (hheld.1.2.record_live hr)
      (fun n hn => hK n (.right (hn.of_records hheld.1.2.records.symm))) hg₁).bind
        fun y g₂ hg₂ ⟨hyK, hheld', _⟩ => ?_
    refine (only_stays y hg₂).bind fun c g₃ hg₃ ⟨he, hy⟩ => ?_
    subst he
    refine (only_stays x hg₃).bind fun a g₄ hg₄ ⟨he, hx⟩ => ?_
    subst he
    rw [hx] at hheld'
    rw [hy] at hheld'
    have hsound : g₄.Sound ([a, c].map .node ++ ext) told := hheld'.1.1.perm (.swap _ _ _)
    refine calculated_stays hbeyond hconf _ offset hsound (fun d hd => ?_) hg₄
    rcases List.mem_cons.mp hd with rfl | hd
    · exact hxK _ hx
    · exact List.mem_singleton.mp hd ▸ hyK c hy

theorem buildAll_stays (hbeyond : ∀ n, g₀.cells.size ≤ n → K n) (hconf : Confines g₀ K read)
    (es : List Expr) {g : Graph} {ext : List Hold} (h : g.Sound ext told) (hr : 0 < (g.record scope).owners)
    (hK : ∀ e ∈ es, ∀ n, g.Mentions scope e n → K n) (hg : g₀.Confined K g) :
    Stays g₀ K ((graphBuilder read).buildAll scope es) g fun xs g' =>
      (∀ n ∈ xs.filterMap (·.operand.value?), K n) ∧
        g.Holding ext told (xs.filterMap (·.operand.value?)) g' := by
  suffices hstays : Stays g₀ K ((graphBuilder read).buildAll scope es) g fun xs _ =>
      ∀ n ∈ xs.filterMap (·.operand.value?), K n from
    (hstays.and (buildAll_yields hconf.reads es h hr)).mono fun _ _ ⟨hxs, hheld, _⟩ => ⟨hxs, hheld⟩
  cases es with
  | nil =>
    rw [Builder.buildAll]
    exact .pure hg (by simp)
  | cons e es =>
    rw [buildAll_cons]
    refine (build_stays hbeyond hconf e h hr (hK e List.mem_cons_self) hg).bind
      fun x g₁ hg₁ ⟨hxK, hheld, _⟩ => ?_
    refine (buildAll_stays hbeyond hconf es hheld.1.1 (hheld.1.2.record_live hr) (fun e he n hn =>
      hK e (List.mem_cons_of_mem _ he) n (hn.of_records hheld.1.2.records.symm)) hg₁).bind
        fun xs g₂ hg₂ ⟨hxs, _⟩ => .pure hg₂ fun n hn => ?_
    rw [List.filterMap_cons] at hn
    cases hx : x.operand with
    | value a =>
      rw [hx] at hn
      rcases List.mem_cons.mp hn with rfl | hn
      · exact hxK _ hx
      · exact hxs n hn
    | scope | list =>
      rw [hx] at hn
      exact hxs n hn

end

theorem parse_confined (hbeyond : ∀ n, g₀.cells.size ≤ n → K n) (hconf : Confines g₀ K read)
    (h : g.Sound ext told) (hr : 0 < (g.record scope).owners) {text : String} (hcovers : g₀.Covers K scope text)
    (hg : g₀.Confined K g) :
    g₀.Confined K (((graphBuilder read).parse scope text).run g).2 ∧
      ∀ root, (((graphBuilder read).parse scope text).run g).1 = .ok root → K root := by
  obtain ⟨tokens, e, htokens, hspells, -, hmentions⟩ := hcovers
  have hstays : Stays g₀ K ((graphBuilder read).build scope e >>= Entry.only) g fun root _ => K root :=
    (build_stays hbeyond hconf e h hr (fun n hn => hmentions n (hn.of_records hg.records.symm)) hg).bind
      fun x g₁ hg₁ ⟨hxK, _⟩ => (only_stays x hg₁).mono fun a _ ⟨_, hx⟩ => hxK a hx
  have hrun := run_succeeding ((graphBuilder read).takeAll scope {} tokens) g
  rw [hspells.takeAll] at hrun
  obtain ⟨hconfined, hroot⟩ := hstays
  rw [Yields] at hroot
  rw [hrun] at hconfined hroot
  rw [Builder.parse, htokens]
  dsimp only
  rw [StateT.run_bind]
  generalize ((graphBuilder read).takeAll scope {} tokens).run.run g = r at hconfined hroot ⊢
  rcases r with ⟨failure | root, g'⟩
  · exact ⟨hconfined.release (isRecord_of_mem_nodes failure.loose), fun _ he => by cases he⟩
  · exact ⟨hconfined, fun root' he => by cases he; exact hroot root g' rfl⟩

theorem buildTree_confined (hbeyond : ∀ n, g₀.cells.size ≤ n → K n) (hconf : Confines g₀ K read)
    (h : g.Sound ext told) {text : String} (hcovers : g₀.Covers K scope text) (hg : g₀.Confined K g) (n : NodeId) :
    g₀.Confined K ((buildTree read n scope text).run.run g).2 ∧
      ∀ root, ((buildTree read n scope text).run.run g).1 = .ok root → K root := by
  rw [run_buildTree]
  by_cases hs : g.scopeIsLive scope = true
  · have hparse := parse_confined hbeyond hconf h (of_decide_eq_true hs) hcovers hg
    rw [if_pos hs]
    generalize ((graphBuilder read).parse scope text).run g = parsed at hparse ⊢
    rcases parsed with ⟨e | root, g'⟩
    · exact ⟨hparse.1, fun _ he => by cases he⟩
    · dsimp only
      split
      · exact ⟨hparse.1.release (by simp [Hold.isRecord]), fun _ he => by cases he⟩
      · exact hparse
  · rw [if_neg hs]
    exact ⟨hg, fun _ he => by cases he⟩

theorem installTree_confined {text : String} {root : NodeId} (old : Option Tree) (hg : g₀.Confined K g) (hn : K n)
    (hpending : (g.node n).isPending = true) (hroot : K root) :
    g₀.Confined K ((installTree n scope text root old).run g).2 := by
  rw [run_installTree]
  have hsubscribed := hg.still (still_subscribe (n := root) (.node n))
  refine (hsubscribed.setTree hn ?_ hroot).release (isRecord_of_mem_oldHolds old)
  rw [(still_subscribe (g := g) (n := root) (.node n)).node]
  exact hpending

/-- The formula of a node in `K` names nodes in `K` alone, so its tree is built within `K`. -/
theorem buildTree_installs_confined (hc : g₀.Seals K) (hconf : Confines g₀ K read) (h : g.Working ext told n g)
    (hn : K n) (hnode : g.node n = .expression scope source) {text : String} (hp : source.pending? = some text)
    (hg : g₀.Confined K g) :
    match (buildTree read n scope text).run.run g with
    | (.ok root, g') => g₀.Confined K ((installTree n scope text root source.tree?).run g').2
    | (.error _, g') => g₀.Confined K g' ∧ g'.node n = g.node n ∧ n < g'.cells.size := by
  have hlt := lt_size_of_owners_pos (h.anchored.live h.sound.accounts)
  have hpending : (g.node n).isPending = true := by
    rw [hnode]
    exact Option.isSome_of_eq_some hp
  have hcovers := hc.covers n scope source text hn ((hg.pending n hpending).symm.trans hnode) hp
  have hbuilt := buildTree_confined hc.beyond hconf h.sound hcovers hg n
  have hgrows := (buildTree_sound hconf.reads h.sound n scope text)
  generalize (buildTree read n scope text).run.run g = built at hbuilt hgrows ⊢
  rcases built with ⟨e | root, g'⟩
  · exact ⟨hbuilt.1, hgrows.2.node n trivial hlt (.inr h.evaluating), Nat.lt_of_lt_of_le hlt hgrows.2.size⟩
  · refine installTree_confined _ hbuilt.1 hn ?_ (hbuilt.2 root rfl)
    rw [hgrows.2.node n trivial hlt (.inr h.evaluating)]
    exact hpending

theorem currentTree_confined (hc : g₀.Seals K) (hconf : Confines g₀ K read) (h : g.Working ext told n g) (hn : K n)
    (hnode : g.node n = .expression scope source) (hg : g₀.Confined K g) :
    g₀.Confined K ((currentTree read n scope source).run.run g).2 := by
  rw [run_currentTree]
  cases source with
  | built tree => exact hg
  | unbuilt text =>
    have hbuilt := buildTree_installs_confined hc hconf h hn hnode rfl hg
    dsimp only
    generalize (buildTree read n scope text).run.run g = built at hbuilt ⊢
    rcases built with ⟨e | root, g'⟩
    · exact hbuilt.1
    · exact hbuilt
  | edited text old =>
    have hbuilt := buildTree_installs_confined hc hconf h hn hnode rfl hg
    dsimp only
    generalize (buildTree read n scope text).run.run g = built at hbuilt ⊢
    rcases built with ⟨e | root, g'⟩
    · exact hbuilt.1.takeBack hbuilt.2.2 hn (hbuilt.2.1.trans hnode)
    · exact hbuilt

theorem mapM_confined (hconf : Confines g₀ K read) (nodes : List NodeId) (h : g.Sound ext told)
    (hnodes : ∀ m ∈ nodes, g.Anchored ext m ∧ K m) (hg : g₀.Confined K g) :
    g₀.Confined K ((nodes.mapM read).run.run g).2 := by
  induction nodes generalizing g with
  | nil => exact hg
  | cons m nodes ih =>
    obtain ⟨hm, hmK⟩ := hnodes m List.mem_cons_self
    obtain ⟨hsound, hgrows, -⟩ := hconf.reads h hm
    have hfirst := hconf.confined h hm hmK hg
    rw [List.mapM_cons, run_bind_except]
    generalize (read m).run.run g = first at hsound hgrows hfirst ⊢
    obtain ⟨e | v, g₁⟩ := first
    · exact hfirst
    · have hrest := ih hsound (fun d hd =>
        (hnodes d (List.mem_cons_of_mem _ hd)).imp_left fun hd => hd.grows h.accounts hgrows) hfirst
      dsimp only
      rw [run_bind_except]
      generalize (nodes.mapM read).run.run g₁ = rest at hrest ⊢
      obtain ⟨e | values, g₂⟩ := rest
      · exact hrest
      · exact hrest

/-- A node in `K` is worked out. Once an edit has been taken back there is nothing left to show. -/
theorem compute_confined (hc : g₀.Seals K) (hconf : Confines g₀ K read) (h : g.Working ext told n g) (hn : K n)
    (hg : g₀.Confined K g) : g₀.Confined K ((compute read n).run.run g).2 := by
  rw [run_compute]
  cases hnode : g.node n with
  | constant value | input value => exact hg
  | calculation operation operands offset tickets =>
    have hanchored : ∀ m ∈ operands, g.Anchored ext m := fun m hm =>
      h.anchored.dependency (by rw [hnode]; rfl) (by rw [dependencies, hnode]; exact hm)
    have hmapM : g₀.Confined K ((operands.mapM read).run.run g).2 := by
      refine hg.of_fenced (mapM_lasts (P := g₀.Retracted K) hconf.reads hconf.retracted operands h.sound hanchored)
        fun hfenced => mapM_confined hconf operands h.sound (fun m hm => ⟨hanchored m hm, ?_⟩) hg
      exact hfenced.dependency n m hn h.dirty (by rw [hnode]; rfl) (by rw [dependencies, hnode]; exact hm)
    dsimp only
    generalize (operands.mapM read).run.run g = r at hmapM ⊢
    obtain ⟨e | values, g'⟩ := r
    · exact hmapM
    · exact hmapM
  | expression scope source =>
    have hcurrent := currentTree_working hconf.reads h hnode
    have hconfined := currentTree_confined hc hconf h hn hnode hg
    dsimp only
    generalize (currentTree read n scope source).run.run g = r at hcurrent hconfined ⊢
    obtain ⟨e | tree, g'⟩ := r
    · exact hconfined
    · obtain ⟨hworking, htree⟩ := hcurrent
      have hn' := htree tree rfl
      have hroot : tree.root ∈ g'.dependencies n := by
        rw [dependencies, hn']
        exact List.mem_singleton_self _
      have hanchored : g'.Anchored ext tree.root := hworking.anchored.dependency (by rw [hn']; rfl) hroot
      exact hconfined.of_fenced (hconf.retracted hworking.sound hanchored) fun hfenced =>
        hconf.confined hworking.sound hanchored
          (hfenced.dependency n tree.root hn hworking.dirty (by rw [hn']; rfl) hroot) hconfined

theorem evaluateNode_confined (hc : g₀.Seals K) (hconf : Confines g₀ K read) (h : g.Sound ext told)
    (hanchored : g.Anchored ext n) (hdirty : (g.cell n).dirty = true) (hn : K n) (hg : g₀.Confined K g) :
    g₀.Confined K ((evaluateNode read n).run.run g).2 := by
  rw [run_evaluateNode]
  split
  · exact hg
  · have hcomputed := compute_confined hc hconf (working_setEvaluating h hanchored hdirty) hn
      (hg.still (still_setEvaluating true))
    exact hcomputed.keepResult hn _

theorem settleAll_confined (hc : g₀.Seals K) (hconf : Confines g₀ K read) {nodes : List NodeId}
    (h : g.Sound ext told) (hnodes : ∀ m ∈ nodes, g.Anchored ext m ∧ K m) (hg : g₀.Confined K g) :
    g₀.Confined K ((settleAll read nodes).run g).2 := by
  induction nodes generalizing g with
  | nil => exact hg
  | cons n nodes ih =>
    have hrest := fun d hd => hnodes d (List.mem_cons_of_mem n hd)
    rw [run_settleAll_cons]
    by_cases hdirty : (g.cell n).dirty = true
    · rw [if_pos hdirty]
      obtain ⟨hn, hnK⟩ := hnodes n List.mem_cons_self
      obtain ⟨hsound, hgrows, -⟩ := evaluateNode_sound hconf.reads h hn hdirty
      have hfirst := evaluateNode_confined hc hconf h hn hdirty hnK hg
      generalize (evaluateNode read n).run.run g = r at hsound hgrows hfirst ⊢
      obtain ⟨e | v, g'⟩ := r
      · exact hfirst
      · exact ih hsound (fun d hd => (hrest d hd).imp_left fun hd => hd.grows h.accounts hgrows) hfirst
    · rw [if_neg hdirty]
      exact ih h hrest hg

/-- What a node in `K` reads or names is in `K`. -/
theorem inputs_in (hc : g₀.Seals K) (hg : g₀.Continues g) (hfenced : g₀.Fenced K g) (hn : K n)
    (hdirty : (g.cell n).dirty = true) {d : NodeId} (hd : d ∈ g.inputs n) : K d := by
  have hsteady : (g.node n).isPending = false → d ∈ g.dependencies n → K d := hfenced.dependency n d hn hdirty
  rw [inputs] at hd
  cases hnode : g.node n with
  | constant | input | calculation =>
    rw [hnode] at hd hsteady
    exact hsteady rfl hd
  | expression scope source =>
    rw [hnode] at hd hsteady
    dsimp only at hd
    cases hp : source.pending? with
    | none =>
      rw [hp] at hd
      exact hsteady (by rw [Node.isPending, hp]; rfl) hd
    | some text =>
      rw [hp] at hd
      dsimp only at hd
      have hpending : (g.node n).isPending = true := by
        rw [hnode]
        exact Option.isSome_of_eq_some hp
      obtain ⟨tokens, -, htokens, -, hnames, -⟩ :=
        hc.covers n scope source text hn ((hg.pending n hpending).symm.trans hnode) hp
      rw [namedIn, htokens] at hd
      split at hd
      · obtain ⟨name, hname, hd⟩ := List.mem_filterMap.mp hd
        obtain ⟨member, hm, hd⟩ := Option.bind_eq_some_iff.mp hd
        rw [resolve?_of_records hg.records] at hm
        cases member with
        | node m =>
          cases hd
          exact hnames name hname d hm
        | record | list => cases hd
      · cases hd

theorem settle_confined (hc : g₀.Seals K) (hconf : Confines g₀ K read)
    (h : g.Sound ext told)
    (hanchored : g.Anchored ext n) (hdirty : (g.cell n).dirty = true) (hn : K n) (hg : g₀.Confined K g) :
    g₀.Confined K ((settle read n).run g).2 := by
  have hstart := working_setEvaluating h hanchored hdirty
  have hbegun := hg.still (still_setEvaluating (n := n) true)
  have hall := settleOrder_anchored hstart.sound.accounts hstart.anchored
  rw [run_settle]
  refine .still (hbegun.of_fenced (settleAll_lasts (lasts_retracted g₀ K).abides hconf.reads hconf.retracted
    hstart.sound hall) fun hfenced => ?_) (still_setEvaluating false)
  have hinside := mem_settleOrder (Q := K)
    (fun m hm hneeds d hd => inputs_in hc hbegun.toContinues hfenced hm (Bool.and_eq_true_iff.mp hneeds).1 hd)
    fun d hd => inputs_in hc hbegun.toContinues hfenced hn hstart.dirty hd
  exact settleAll_confined hc hconf hstart.sound (fun m hm => ⟨hall m hm, (hinside m hm).1⟩) hbegun

theorem readWith_confined (hc : g₀.Seals K) (hconf : Confines g₀ K read) (h : g.Sound ext told)
    (hanchored : g.Anchored ext n) (hn : K n) (hg : g₀.Confined K g) :
    g₀.Confined K ((readWith read n).run.run g).2 := by
  rw [run_readWith]
  by_cases hdirty : (g.cell n).dirty = true
  · rw [if_pos hdirty]
    dsimp only
    by_cases he : (g.cell n).evaluating = true
    · rw [if_pos he]
      exact hg
    · rw [if_neg he]
      obtain ⟨hsound, hgrows, hdirty'⟩ := settle_sound hconf.reads h hanchored hdirty (Bool.eq_false_iff.mpr he)
      have hsettled := settle_confined hc hconf h hanchored hdirty hn hg
      exact evaluateNode_confined hc hconf hsound (hanchored.grows h.accounts hgrows) hdirty' hn hsettled
  · obtain ⟨v, hv⟩ := h.coherent.cached n (hanchored.live h.accounts) (Bool.eq_false_iff.mpr hdirty)
    rw [if_neg hdirty, hv]
    exact hg

/-- However deep a read goes, by induction on how deep it may go. -/
theorem readWithin_confines (hc : g₀.Seals K) (limit : Nat) : Confines g₀ K (readWithin limit) := by
  have hretracted := readWithin_keeps (lasts_retracted g₀ K).abides
  induction limit with
  | zero => exact ⟨readWithin_reads 0, hretracted 0, fun _ _ _ hg => hg⟩
  | succ limit ih => exact ⟨readWithin_reads (limit + 1), hretracted (limit + 1), readWith_confined hc ih⟩

end

namespace Graph

variable {g : Graph} {K : NodeId → Prop} {ext : List Hold} {told : List NodeId} {n : NodeId}

theorem Seals.confined (hc : g.Seals K) : g.Confined K g where
  toContinues := .refl g
  fenced := .inr ⟨hc.dependency, fun _ _ => ⟨rfl, rfl⟩⟩

/-- A read from within `K` leaves what is outside alone, unless it takes an edit within `K` back. -/
theorem Seals.read (hc : g.Seals K) (h : g.Sound ext told) (hanchored : g.Anchored ext n) (hn : K n) :
    g.Confined K (g.read n).2 := by
  rw [Graph.read, run_readNode]
  exact (readWithin_confines hc g.depthLimit).confined h hanchored hn hc.confined

end Graph

end FormulaGraph
