import FormulaGraph.Proofs.Building
import FormulaGraph.Proofs.Settling

/-! What a formula has been built into. The nodes that were made for it never change, so it can be told
later on which part of the formula each of them stands for. -/

namespace FormulaGraph

def Member.found : Member → Found NodeId RecordId
  | .node n => .value n
  | .record r => .scope r
  | .list _ => .list

def boolNamed? (name : String) : Option Bool :=
  if name = "true" then some true else if name = "false" then some false else none

/-- Nodes that are made while formulas are built. -/
def Node.isMade : Node → Bool
  | .constant _ | .calculation .. => true
  | .input _ | .expression .. => false

/-- Nothing is known of what it reads. -/
def Node.withheld : Node → Node
  | .constant value => .constant value
  | .input _ | .calculation .. | .expression .. => .input (.bool false)

namespace Graph

def IsConstant (g : Graph) (n : NodeId) (value : Value) : Prop :=
  n < g.cells.size ∧ g.node n = .constant value

def Calculates (g : Graph) (n : NodeId) (operation : Operation) (operands : List NodeId) (offset : Nat) : Prop :=
  n < g.cells.size ∧ ∃ tickets, g.node n = .calculation operation operands offset tickets

mutual

/-- The tree has been built into what is found, with the names of a scope. -/
inductive Built (g : Graph) (scope : RecordId) : Expr → Found NodeId RecordId → Prop
  | number {digits : String} {x : Float} {offset : Nat} {n : NodeId}
    (hx : readNumber? digits.toList = some x) (hn : g.IsConstant n (.scalar x)) :
    Built g scope (.number digits none offset) (.value n)
  | suffixed {digits : String} {x : Float} {suffix : Suffix} {offset : Nat} {a n : NodeId}
    (hx : readNumber? digits.toList = some x) (ha : g.IsConstant a (.scalar x))
    (hn : g.Calculates n (.convert suffix) [a] offset) : Built g scope (.number digits (some suffix) offset) (.value n)
  | text {contents : String} {offset : Nat} {n : NodeId} (hn : g.IsConstant n (.text contents)) :
    Built g scope (.text contents offset) (.value n)
  | bool {name : String} {b : Bool} {offset : Nat} {n : NodeId} (hb : boolNamed? name = some b)
    (hn : g.IsConstant n (.bool b)) : Built g scope (.name name offset) (.value n)
  | resolved {name : String} {offset : Nat} {member : Member} (hb : boolNamed? name = none)
    (hr : g.resolve? scope name = some member) : Built g scope (.name name offset) member.found
  | constant {name : String} {offset : Nat} {n : NodeId} {value : Value} (hb : boolNamed? name = none)
    (hr : g.resolve? scope name = none) (hc : namedConstant? name = some value)
    (hn : g.IsConstant n value) : Built g scope (.name name offset) (.value n)
  | group {e : Expr} {found : Found NodeId RecordId} (h : Built g scope e found) :
    Built g scope (.group e) found
  | call {name : String} {f : Builtin} {es : List Expr} {offset : Nat} {arguments : List NodeId} {n : NodeId}
    (hf : Builtin.ofName? name = some f) (hs : BuiltAll g scope es (arguments.map .value))
    (hn : g.Calculates n (.builtin f) arguments offset) : Built g scope (.call name es offset) (.value n)
  | field {e : Expr} {name : String} {f : Field} {offset : Nat} {a n : NodeId} (h : Built g scope e (.value a))
    (hf : f.name = name) (hn : g.Calculates n (.field f) [a] offset) :
    Built g scope (.field e name offset) (.value n)
  | member {e : Expr} {name : String} {offset : Nat} {inner : RecordId} {member : Member}
    (h : Built g scope e (.scope inner)) (hr : g.resolve? inner name = some member) :
    Built g scope (.field e name offset) member.found
  | method {e : Expr} {name : String} {f : Method} {es : List Expr} {offset : Nat} {a n : NodeId}
    {arguments : List NodeId} (h : Built g scope e (.value a)) (hf : f.name = name)
    (hs : BuiltAll g scope es (arguments.map .value)) (hn : g.Calculates n (.method f) (a :: arguments) offset) :
    Built g scope (.method e name es offset) (.value n)
  | unary {e : Expr} {op : UnaryOp} {offset : Nat} {a n : NodeId} (h : Built g scope e (.value a))
    (hn : g.Calculates n (.unary op) [a] offset) : Built g scope (.unary op e offset) (.value n)
  | binary {l r : Expr} {op : BinaryOp} {offset : Nat} {a c n : NodeId} (hl : Built g scope l (.value a))
    (hr : Built g scope r (.value c)) (hn : g.Calculates n (.binary op) [a, c] offset) :
    Built g scope (.binary op l r offset) (.value n)

inductive BuiltAll (g : Graph) (scope : RecordId) : List Expr → List (Found NodeId RecordId) → Prop
  | nil : BuiltAll g scope [] []
  | cons {e : Expr} {es : List Expr} {found : Found NodeId RecordId} {founds : List (Found NodeId RecordId)}
    (h : Built g scope e found) (hs : BuiltAll g scope es founds) :
    BuiltAll g scope (e :: es) (found :: founds)

end

/-- The tree only names the node: nothing has been made for it. -/
inductive Named (g : Graph) (scope : RecordId) : Expr → NodeId → Prop
  | name {name : String} {offset : Nat} {n : NodeId} (hb : boolNamed? name = none)
    (hr : g.resolve? scope name = some (.node n)) : Named g scope (.name name offset) n
  | member {e : Expr} {name : String} {offset : Nat} {inner : RecordId} {n : NodeId}
    (h : Built g scope e (.scope inner)) (hr : g.resolve? inner name = some (.node n)) :
    Named g scope (.field e name offset) n
  | group {e : Expr} {n : NodeId} (h : Named g scope e n) : Named g scope (.group e) n

/-- The first `k` nodes are withheld, so that what is built there is built anew. -/
def since (g : Graph) (k : Nat) : Graph :=
  { g with cells := g.cells.mapIdx fun m c => if m < k then { c with node := c.node.withheld } else c }

/-- The same records, and every node that was made for a formula. -/
structure Extends (g g' : Graph) : Prop where
  records : g'.records = g.records
  size : g.cells.size ≤ g'.cells.size
  made (n : NodeId) : n < g.cells.size → (g.node n).isMade = true → g'.node n = g.node n

variable {g g' g'' : Graph} {n : NodeId} {scope : RecordId}

theorem Extends.trans (h : g.Extends g') (h' : g'.Extends g'') : g.Extends g'' where
  records := h'.records.trans h.records
  size := Nat.le_trans h.size h'.size
  made n hn hmade := by
    have hsame := h.made n hn hmade
    rw [h'.made n (Nat.lt_of_lt_of_le hn h.size) (by rwa [hsame]), hsame]

theorem GrowsOn.extends (h : g.Grows g') : g.Extends g' where
  records := h.records
  size := h.size
  made n hn hmade := by
    refine h.node n trivial hn (.inl ?_)
    cases he : g.node n with
    | constant | input | calculation => rfl
    | expression =>
      rw [he] at hmade
      cases hmade

theorem find?_of_records (h : g'.records = g.records) (r : RecordId) (name : String) :
    g'.find? r name = g.find? r name := by
  have hrecord : ∀ r, g'.record r = g.record r := fun r => by rw [record, h, record]
  fun_induction find? g r name with
  | case1 r found hfound => rw [find?, hrecord, hfound]
  | case2 r hnone parent hp hlt ih =>
    rw [find?, hrecord, hnone, hp]
    simp only [hlt, if_true]
    exact ih
  | case3 r hnone parent hp hlt =>
    rw [find?, hrecord, hnone, hp]
    simp only [hlt, if_false]
  | case4 r hnone hp => rw [find?, hrecord, hnone, hp]

theorem resolve?_of_records (h : g'.records = g.records) (r : RecordId) (name : String) :
    g'.resolve? r name = g.resolve? r name := by
  have hfind := fun r name => find?_of_records h r name
  rw [resolve?, resolve?, hfind]
  simp only [hfind]

theorem IsConstant.extends {value : Value} (h : g.IsConstant n value) (he : g.Extends g') :
    g'.IsConstant n value := by
  obtain ⟨hn, hnode⟩ := h
  exact ⟨Nat.lt_of_lt_of_le hn he.size, (he.made n hn (by rw [hnode]; rfl)).trans hnode⟩

theorem Calculates.extends {operation : Operation} {operands : List NodeId} {offset : Nat}
    (h : g.Calculates n operation operands offset) (he : g.Extends g') :
    g'.Calculates n operation operands offset := by
  obtain ⟨hn, tickets, hnode⟩ := h
  exact ⟨Nat.lt_of_lt_of_le hn he.size, tickets, (he.made n hn (by rw [hnode]; rfl)).trans hnode⟩

mutual

theorem Built.extends {e : Expr} {found : Found NodeId RecordId} (he : g.Extends g') :
    g.Built scope e found → g'.Built scope e found
  | .number hx hn => .number hx (hn.extends he)
  | .suffixed hx ha hn => .suffixed hx (ha.extends he) (hn.extends he)
  | .text hn => .text (hn.extends he)
  | .bool hb hn => .bool hb (hn.extends he)
  | .resolved hb hr => .resolved hb ((resolve?_of_records he.records scope _).trans hr)
  | .constant hb hr hc hn =>
    .constant hb ((resolve?_of_records he.records scope _).trans hr) hc (hn.extends he)
  | .group h => .group (h.extends he)
  | .call hf hs hn => .call hf (hs.extends he) (hn.extends he)
  | .field h hf hn => .field (h.extends he) hf (hn.extends he)
  | .member h hr => .member (h.extends he) ((resolve?_of_records he.records _ _).trans hr)
  | .method h hf hs hn => .method (h.extends he) hf (hs.extends he) (hn.extends he)
  | .unary h hn => .unary (h.extends he) (hn.extends he)
  | .binary hl hr hn => .binary (hl.extends he) (hr.extends he) (hn.extends he)

theorem BuiltAll.extends {es : List Expr} {founds : List (Found NodeId RecordId)} (he : g.Extends g') :
    g.BuiltAll scope es founds → g'.BuiltAll scope es founds
  | .nil => .nil
  | .cons h hs => .cons (h.extends he) (hs.extends he)

end

section

variable {k : Nat}

theorem size_since : (g.since k).cells.size = g.cells.size := Array.size_mapIdx

theorem lt_size_since : n < (g.since k).cells.size ↔ n < g.cells.size := by
  rw [size_since]

theorem node_since (m : NodeId) : (g.since k).node m = if m < k then (g.node m).withheld else g.node m := by
  rw [node, node, cell, cell, since, Array.getElem?_mapIdx]
  cases g.cells[m]? with
  | none => simp [Cell.absent, Node.withheld]
  | some c =>
    rw [Option.map_some, Option.getD_some, Option.getD_some]
    split <;> rfl

theorem resolve?_since (r : RecordId) (name : String) : (g.since k).resolve? r name = g.resolve? r name :=
  resolve?_of_records (show (g.since k).records = g.records from rfl) r name

theorem eq_of_withheld_isMade {node : Node} (h : node.withheld.isMade = true) : node.withheld = node := by
  cases node with
  | constant => rfl
  | input | calculation | expression => cases h

theorem Extends.since (h : g.Extends g') : (g.since k).Extends (g'.since k) where
  records := h.records
  size := by
    rw [size_since, size_since]
    exact h.size
  made m hm hmade := by
    rw [size_since] at hm
    rw [node_since] at hmade ⊢
    rw [node_since]
    split
    next hlt =>
      rw [if_pos hlt] at hmade
      rw [eq_of_withheld_isMade hmade] at hmade
      rw [h.made m hm hmade]
    next hge =>
      rw [if_neg hge] at hmade
      exact h.made m hm hmade

theorem IsConstant.since {value : Value} (h : g.IsConstant n value) : (g.since k).IsConstant n value := by
  refine ⟨lt_size_since.mpr h.1, ?_⟩
  rw [node_since, h.2]
  split <;> rfl

theorem IsConstant.of_since {value : Value} (h : (g.since k).IsConstant n value) : g.IsConstant n value := by
  obtain ⟨hn, hnode⟩ := h
  refine ⟨lt_size_since.mp hn, ?_⟩
  rw [node_since] at hnode
  split at hnode
  · rwa [eq_of_withheld_isMade (by rw [hnode]; rfl)] at hnode
  · exact hnode

theorem Calculates.since {operation : Operation} {operands : List NodeId} {offset : Nat}
    (h : g.Calculates n operation operands offset) (hn : k ≤ n) :
    (g.since k).Calculates n operation operands offset := by
  obtain ⟨hlt, tickets, hnode⟩ := h
  refine ⟨lt_size_since.mpr hlt, tickets, ?_⟩
  rw [node_since, if_neg (Nat.not_lt_of_le hn), hnode]

theorem Calculates.of_since {operation : Operation} {operands : List NodeId} {offset : Nat}
    (h : (g.since k).Calculates n operation operands offset) : g.Calculates n operation operands offset := by
  obtain ⟨hlt, tickets, hnode⟩ := h
  refine ⟨lt_size_since.mp hlt, tickets, ?_⟩
  rw [node_since] at hnode
  split at hnode
  · rwa [eq_of_withheld_isMade (by rw [hnode]; rfl)] at hnode
  · exact hnode

mutual

theorem Built.of_since {e : Expr} {found : Found NodeId RecordId} :
    (g.since k).Built scope e found → g.Built scope e found
  | .number hx hn => .number hx hn.of_since
  | .suffixed hx ha hn => .suffixed hx ha.of_since hn.of_since
  | .text hn => .text hn.of_since
  | .bool hb hn => .bool hb hn.of_since
  | .resolved hb hr => .resolved hb ((resolve?_since scope _).symm.trans hr)
  | .constant hb hr hc hn => .constant hb ((resolve?_since scope _).symm.trans hr) hc hn.of_since
  | .group h => .group h.of_since
  | .call hf hs hn => .call hf hs.of_since hn.of_since
  | .field h hf hn => .field h.of_since hf hn.of_since
  | .member h hr => .member h.of_since ((resolve?_since _ _).symm.trans hr)
  | .method h hf hs hn => .method h.of_since hf hs.of_since hn.of_since
  | .unary h hn => .unary h.of_since hn.of_since
  | .binary hl hr hn => .binary hl.of_since hr.of_since hn.of_since

theorem BuiltAll.of_since {es : List Expr} {founds : List (Found NodeId RecordId)} :
    (g.since k).BuiltAll scope es founds → g.BuiltAll scope es founds
  | .nil => .nil
  | .cons h hs => .cons h.of_since hs.of_since

end

end

end Graph

end FormulaGraph
