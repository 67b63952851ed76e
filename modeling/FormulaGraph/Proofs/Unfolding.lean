import FormulaGraph.Proofs.Running
import FormulaGraph.Proofs.Searching

/-! Working a node out without keeping anything. What a node comes to is settled by the nodes that it leads to,
and is the same as what follows from values that have been kept rightly. -/

namespace FormulaGraph

open FormulaGraph.Graph

namespace Graph

mutual

/-- What a node comes to if all that it reads is worked out again, from left to right up to the first
failure. -/
inductive Evaluates (g : Graph) : NodeId → Checked Value → Prop
  | constant {n : NodeId} {value : Value} (hn : g.node n = .constant value) : Evaluates g n (.ok value)
  | input {n : NodeId} {value : Value} (hn : g.node n = .input value) : Evaluates g n (.ok value)
  | calculation {n : NodeId} {operation : Operation} {operands : List NodeId} {offset : Nat}
    {tickets : List Ticket} {r : Checked (List Value)}
    (hn : g.node n = .calculation operation operands offset tickets) (hs : EvaluatesAll g operands r) :
    Evaluates g n (r.bind fun values => applyAt operation values offset)
  | expression {n : NodeId} {scope : RecordId} {tree : Tree} {r : Checked Value}
    (hn : g.node n = .expression scope (.built tree)) (hr : Evaluates g tree.root r) :
    Evaluates g n (r.mapError (·.attach tree.text))

inductive EvaluatesAll (g : Graph) : List NodeId → Checked (List Value) → Prop
  | nil : EvaluatesAll g [] (.ok [])
  | failed {n : NodeId} {rest : List NodeId} {e : FormulaError} (h : Evaluates g n (.error e)) :
    EvaluatesAll g (n :: rest) (.error e)
  | cons {n : NodeId} {rest : List NodeId} {v : Value} {r : Checked (List Value)} (h : Evaluates g n (.ok v))
    (hs : EvaluatesAll g rest r) : EvaluatesAll g (n :: rest) (r.map (v :: ·))

end

variable {g g' : Graph}

section

variable {n : NodeId} {r : Checked Value}

theorem Evaluates.apply {operation : Operation} {operands : List NodeId} {offset : Nat} {tickets : List Ticket}
    {values : List Value} {v : Value} (hn : g.node n = .calculation operation operands offset tickets)
    (hs : g.EvaluatesAll operands (.ok values)) (hv : applyAt operation values offset = .ok v) :
    g.Evaluates n (.ok v) :=
  hv ▸ .calculation hn hs

theorem Evaluates.of_constant {value : Value} (h : g.Evaluates n r) (hn : g.node n = .constant value) :
    r = .ok value := by
  cases h with
  | constant hn' => exact congrArg Except.ok (Node.constant.inj (hn'.symm.trans hn))
  | input hn' | calculation hn' | expression hn' => cases hn'.symm.trans hn

theorem Evaluates.of_input {value : Value} (h : g.Evaluates n r) (hn : g.node n = .input value) :
    r = .ok value := by
  cases h with
  | input hn' => exact congrArg Except.ok (Node.input.inj (hn'.symm.trans hn))
  | constant hn' | calculation hn' | expression hn' => cases hn'.symm.trans hn

theorem Evaluates.of_calculation {operation : Operation} {operands : List NodeId} {offset : Nat}
    {tickets : List Ticket} (h : g.Evaluates n r)
    (hn : g.node n = .calculation operation operands offset tickets) :
    ∃ rs, g.EvaluatesAll operands rs ∧ r = rs.bind fun values => applyAt operation values offset := by
  cases h with
  | calculation hn' hs =>
    obtain ⟨rfl, rfl, rfl, -⟩ := Node.calculation.inj (hn'.symm.trans hn)
    exact ⟨_, hs, rfl⟩
  | constant hn' | input hn' | expression hn' => cases hn'.symm.trans hn

theorem Evaluates.of_expression {scope : RecordId} {tree : Tree} (h : g.Evaluates n r)
    (hn : g.node n = .expression scope (.built tree)) :
    ∃ root, g.Evaluates tree.root root ∧ r = root.mapError (·.attach tree.text) := by
  cases h with
  | expression hn' hr =>
    obtain ⟨-, hsource⟩ := Node.expression.inj (hn'.symm.trans hn)
    obtain rfl := Source.built.inj hsource
    exact ⟨_, hr, rfl⟩
  | constant hn' | input hn' | calculation hn' => cases hn'.symm.trans hn

end

mutual

theorem Evaluates.unique {n : NodeId} {r r' : Checked Value} : g.Evaluates n r → g.Evaluates n r' → r = r'
  | .constant hn, h' => (h'.of_constant hn).symm
  | .input hn, h' => (h'.of_input hn).symm
  | .calculation hn hs, h' => by
    obtain ⟨rs, hs', rfl⟩ := h'.of_calculation hn
    rw [hs.unique hs']
  | .expression hn hr, h' => by
    obtain ⟨root, hr', rfl⟩ := h'.of_expression hn
    rw [hr.unique hr']

theorem EvaluatesAll.unique {nodes : List NodeId} {r r' : Checked (List Value)} :
    g.EvaluatesAll nodes r → g.EvaluatesAll nodes r' → r = r'
  | .nil, .nil => rfl
  | .failed h, .failed h' => congrArg _ (Except.error.inj (h.unique h'))
  | .failed h, .cons h' _ => nomatch h.unique h'
  | .cons h _, .failed h' => nomatch h.unique h'
  | .cons h hs, .cons h' hs' => by rw [Except.ok.inj (h.unique h'), hs.unique hs']

end

mutual

/-- What a node comes to depends only on the nodes it leads to. -/
theorem Evaluates.of_within {R : NodeId → Prop} {n : NodeId} {r : Checked Value}
    (hR : ∀ n d, R n → g.Uses n d → R d) (hnode : ∀ n, R n → g'.node n = g.node n) (hn : R n) :
    g.Evaluates n r → g'.Evaluates n r
  | .constant h => .constant ((hnode n hn).trans h)
  | .input h => .input ((hnode n hn).trans h)
  | .calculation h hs => .calculation ((hnode n hn).trans h) (hs.of_within hR hnode fun d hd =>
      hR n d hn (by rw [Uses, dependencies, h]; exact hd))
  | .expression h hr => .expression ((hnode n hn).trans h) (hr.of_within hR hnode
      (hR n _ hn (by rw [Uses, dependencies, h]; exact List.mem_singleton_self _)))

theorem EvaluatesAll.of_within {R : NodeId → Prop} {nodes : List NodeId} {r : Checked (List Value)}
    (hR : ∀ n d, R n → g.Uses n d → R d) (hnode : ∀ n, R n → g'.node n = g.node n) (hnodes : ∀ n ∈ nodes, R n) :
    g.EvaluatesAll nodes r → g'.EvaluatesAll nodes r
  | .nil => .nil
  | .failed h => .failed (h.of_within hR hnode (hnodes _ List.mem_cons_self))
  | .cons h hs => .cons (h.of_within hR hnode (hnodes _ List.mem_cons_self))
      (hs.of_within hR hnode fun d hd => hnodes d (List.mem_cons_of_mem _ hd))

end

theorem Evaluates.of_node {n : NodeId} {r : Checked Value} (h : g.Evaluates n r)
    (hnode : ∀ m, g'.node m = g.node m) : g'.Evaluates n r :=
  h.of_within (R := fun _ => True) (fun _ _ _ _ => trivial) (fun m _ => hnode m) trivial

theorem EvaluatesAll.of_node {nodes : List NodeId} {r : Checked (List Value)} (h : g.EvaluatesAll nodes r)
    (hnode : ∀ m, g'.node m = g.node m) : g'.EvaluatesAll nodes r :=
  h.of_within (R := fun _ => True) (fun _ _ _ _ => trivial) (fun m _ => hnode m) fun _ _ => trivial

variable {n m d : NodeId} {nodes : List NodeId}

theorem evaluatesAll_of_mapM {values : List Value}
    (h : nodes.mapM (fun m => (g.cell m).cache) = some values)
    (hkept : ∀ m ∈ nodes, ∀ v, (g.cell m).cache = some v → g.Evaluates m (.ok v)) :
    g.EvaluatesAll nodes (.ok values) := by
  induction nodes generalizing values with
  | nil =>
    cases h
    exact .nil
  | cons m nodes ih =>
    rw [List.mapM_cons] at h
    obtain ⟨v, hv, h⟩ := Option.bind_eq_some_iff.mp h
    obtain ⟨rest, hrest, h⟩ := Option.bind_eq_some_iff.mp h
    cases h
    exact .cons (hkept m List.mem_cons_self v hv) (ih hrest fun d hd => hkept d (List.mem_cons_of_mem _ hd))

/-- What follows from values that are right is right. -/
theorem evaluates_of_given? {v : Value} (h : g.given? n = some v)
    (hkept : ∀ d, g.Uses n d → ∀ w, (g.cell d).cache = some w → g.Evaluates d (.ok w)) :
    g.Evaluates n (.ok v) := by
  rw [given?] at h
  cases hn : g.node n with
  | constant value =>
    rw [hn] at h
    cases h
    exact .constant hn
  | input value =>
    rw [hn] at h
    cases h
    exact .input hn
  | calculation operation operands offset tickets =>
    rw [hn] at h
    obtain ⟨values, hvalues, happly⟩ := Option.bind_eq_some_iff.mp h
    have hs : g.EvaluatesAll operands (.ok values) := evaluatesAll_of_mapM hvalues fun m hm =>
      hkept m (by rw [Uses, dependencies, hn]; exact hm)
    exact .apply hn hs (applyAt_of_toOption happly)
  | expression scope source =>
    rw [hn] at h
    cases source with
    | built tree =>
      exact .expression hn (hkept tree.root (by rw [Uses, dependencies, hn]; exact List.mem_singleton_self _) v h)
    | unbuilt | edited => cases h

end Graph

end FormulaGraph
