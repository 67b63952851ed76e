import FormulaGraph.Proofs.Confining
import FormulaGraph.Proofs.Rebuilding
import FormulaGraph.Proofs.Writing

/-! What a read touches is what the node depends on when it is done. A formula that waits to be built is scanned for
names before it is parsed, and where the scan goes astray, so does the read: it takes the unit behind a number and the
name of a function for properties of the scope. -/

namespace FormulaGraph

open FormulaGraph.Graph Relation

/-- The names in a formula that are looked up in its scope: no units, functions, truth values or members. -/
def lookedUp : List Token → List String
  | [] => []
  | ⟨_, .number _⟩ :: ⟨_, .name _⟩ :: tokens => lookedUp tokens
  | ⟨_, .symbol .dot⟩ :: ⟨_, .name _⟩ :: tokens => lookedUp tokens
  | ⟨_, .name _⟩ :: ⟨_, .symbol .opening⟩ :: tokens => lookedUp tokens
  | ⟨_, .name name⟩ :: tokens => if boolNamed? name = none then name :: lookedUp tokens else lookedUp tokens
  | _ :: tokens => lookedUp tokens

/-- Empty, or begun by a symbol that opens nothing. -/
def Delimited (tokens : List Token) : Prop :=
  ∀ token rest, tokens = token :: rest → ∃ symbol, token.lexeme = .symbol symbol ∧ symbol ≠ .opening

theorem delimited_nil : Delimited [] := fun _ _ he => by cases he

theorem delimited_cons {place : Nat} {symbol : Symbol} (h : symbol ≠ .opening) (rest : List Token) :
    Delimited (⟨place, .symbol symbol⟩ :: rest) := by
  intro token rest he
  cases he
  exact ⟨symbol, rfl, h⟩

section

variable {rest : List Token}

theorem lookedUp_number (hrest : Delimited rest) (offset : Nat) (digits : String) :
    lookedUp (⟨offset, .number digits⟩ :: rest) = lookedUp rest := by
  cases rest with
  | nil => rfl
  | cons token rest =>
    obtain ⟨symbol, hsymbol, -⟩ := hrest token rest rfl
    obtain ⟨place, lexeme⟩ := token
    obtain rfl : lexeme = .symbol symbol := hsymbol
    rw [lookedUp] <;> simp

theorem lookedUp_text (offset : Nat) (contents : String) :
    lookedUp (⟨offset, .text contents⟩ :: rest) = lookedUp rest := by
  cases rest <;> rfl

theorem lookedUp_name (hrest : Delimited rest) (offset : Nat) (name : String) :
    lookedUp (⟨offset, .name name⟩ :: rest) =
      if boolNamed? name = none then name :: lookedUp rest else lookedUp rest := by
  cases rest with
  | nil => rfl
  | cons token rest =>
    obtain ⟨symbol, hsymbol, hne⟩ := hrest token rest rfl
    obtain ⟨place, lexeme⟩ := token
    obtain rfl : lexeme = .symbol symbol := hsymbol
    rw [lookedUp]
    rintro _ _ he
    cases he
    exact hne rfl

theorem lookedUp_symbol {symbol : Symbol} (h : symbol ≠ .dot) (offset : Nat) :
    lookedUp (⟨offset, .symbol symbol⟩ :: rest) = lookedUp rest := by
  rw [lookedUp] <;> simp [h]

end

namespace Graph

variable {g g' : Graph} {scope : RecordId} {n d : NodeId}

/-- What a name stands for is named by the tree, or the name is further on. -/
def Finds (g : Graph) (scope : RecordId) (e : Expr) (rest : List Token) (name : String) : Prop :=
  (∀ n, g.resolve? scope name = some (.node n) → g.Mentions scope e n) ∨ name ∈ lookedUp rest

mutual

/-- Whatever is looked up is named by the tree, by induction on what spells it. -/
theorem finds_of_spells {k : Nat} {e : Expr} {ts rest : List Token} {name : String} (hrest : Delimited rest)
    (hname : name ∈ lookedUp (ts ++ rest)) : Spells k e ts → g.Finds scope e rest name
  | .number digits none offset place => .inr (by rwa [← lookedUp_number hrest])
  | .number digits (some suffix) offset place => .inr hname
  | .text contents offset => .inr (by rwa [← lookedUp_text offset contents])
  | .name found offset => by
    rw [List.singleton_append, lookedUp_name hrest] at hname
    split at hname
    next hb =>
      refine (List.mem_cons.mp hname).imp (fun he n hn => ?_) id
      subst he
      exact .named (.name hb hn)
    · exact .inr hname
  | .group opening closing h => by
    rw [List.cons_append, lookedUp_symbol (by decide), List.append_assoc] at hname
    refine (finds_of_spells (delimited_cons (by decide) rest) hname h).imp
      (fun hm n hn => .group (hm n hn)) fun hr => ?_
    rwa [lookedUp_symbol (by decide)] at hr
  | .call callee offset opening closing h => by
    rw [List.cons_append, List.cons_append, lookedUp, List.append_assoc] at hname
    refine (findsAll_of_spells (delimited_cons (by decide) rest) hname h).imp
      (fun ⟨e, he, hm⟩ n hn => .argument he (hm n hn)) fun hr => ?_
    rwa [lookedUp_symbol (by decide)] at hr
  | .field field dot offset h => by
    rw [List.append_assoc] at hname
    exact (finds_of_spells (delimited_cons (by decide) _) hname h).imp (fun hm n hn => .field (hm n hn)) id
  | .method method dot offset opening closing h hs => by
    rw [List.append_assoc, List.cons_append, List.cons_append, List.cons_append] at hname
    rcases finds_of_spells (delimited_cons (by decide) _) hname h with hm | harguments
    · exact .inl fun n hn => .receiver (hm n hn)
    · rw [lookedUp, lookedUp_symbol (by decide), List.append_assoc] at harguments
      refine (findsAll_of_spells (delimited_cons (by decide) rest) harguments hs).imp
        (fun ⟨e, he, hm⟩ n hn => .parameter he (hm n hn)) fun hr => ?_
      rwa [lookedUp_symbol (by decide)] at hr
  | .unary op offset hk h => by
    rw [List.cons_append, lookedUp_symbol (by cases op <;> decide)] at hname
    exact (finds_of_spells hrest hname h).imp (fun hm n hn => .unary (hm n hn)) id
  | .binary op offset hk hl hr => by
    rw [List.append_assoc, List.cons_append] at hname
    rcases finds_of_spells (delimited_cons (by simp) _) hname hl with hm | hright
    · exact .inl fun n hn => .left (hm n hn)
    · rw [lookedUp_symbol (by simp)] at hright
      exact (finds_of_spells hrest hright hr).imp (fun hm n hn => .right (hm n hn)) id

theorem findsAll_of_spells {es : List Expr} {ts rest : List Token} {name : String} (hrest : Delimited rest)
    (hname : name ∈ lookedUp (ts ++ rest)) : SpellsAll es ts →
      (∃ e ∈ es, ∀ n, g.resolve? scope name = some (.node n) → g.Mentions scope e n) ∨ name ∈ lookedUp rest
  | .nil => .inr hname
  | .last h => (finds_of_spells hrest hname h).imp (fun hm => ⟨_, List.mem_singleton_self _, hm⟩) id
  | .more comma h hs => by
    rw [List.append_assoc, List.cons_append] at hname
    rcases finds_of_spells (delimited_cons (by decide) _) hname h with hm | hlater
    · exact .inl ⟨_, List.mem_cons_self, hm⟩
    · rw [lookedUp_symbol (by decide)] at hlater
      exact (findsAll_of_spells hrest hlater hs).imp
        (fun ⟨e, he, hm⟩ => ⟨e, List.mem_cons_of_mem _ he, hm⟩) id

end

/-- A tree that leads to a record leads nowhere else. -/
theorem Built.eq_scope {r : RecordId} {found found' : Found NodeId RecordId} (e : Expr) (h : g.Built scope e found)
    (hfound : found = .scope r) (h' : g.Built scope e found') : found' = .scope r := by
  cases e with
  | name name offset =>
    cases h with
    | resolved hb hr =>
      cases h' with
      | resolved hb' hr' =>
        cases hr.symm.trans hr'
        exact hfound
      | bool hb' => rw [hb] at hb'; cases hb'
      | constant hb' hr' => rw [hr] at hr'; cases hr'
    | bool | constant => cases hfound
  | group inner =>
    cases h with
    | group h =>
      cases h' with
      | group h' => exact h.eq_scope inner hfound h'
  | field receiver name offset =>
    cases h with
    | member h hr =>
      cases h' with
      | member h' hr' =>
        cases h.eq_scope receiver rfl h'
        cases hr.symm.trans hr'
        exact hfound
      | field h' => cases h.eq_scope receiver rfl h'
    | field => cases hfound
  | number | text | call | method | unary | binary => cases h <;> cases hfound

/-- A tree that only names a node leads to it. -/
theorem Named.eq_value {e : Expr} (h : g.Named scope e n) {found : Found NodeId RecordId}
    (hbuilt : g.Built scope e found) : found = .value n := by
  induction h with
  | name hb hr =>
    cases hbuilt with
    | resolved hb' hr' =>
      cases hr.symm.trans hr'
      rfl
    | bool hb' => rw [hb] at hb'; cases hb'
    | constant hb' hr' => rw [hr] at hr'; cases hr'
  | member h hr =>
    cases hbuilt with
    | member h' hr' =>
      cases h.eq_scope _ rfl h'
      cases hr.symm.trans hr'
      rfl
    | field h' => cases h.eq_scope _ rfl h'
  | group h ih =>
    cases hbuilt with
    | group hbuilt => exact ih hbuilt

theorem BuiltAll.exists_mem {es : List Expr} {founds : List (Found NodeId RecordId)} {e : Expr}
    (h : g.BuiltAll scope es founds) (he : e ∈ es) : ∃ found ∈ founds, g.Built scope e found := by
  induction es generalizing founds with
  | nil => cases he
  | cons e' es ih =>
    cases h with
    | cons h hs =>
      rcases List.mem_cons.mp he with rfl | he
      · exact ⟨_, List.mem_cons_self, h⟩
      · obtain ⟨found, hfound, hbuilt⟩ := ih hs he
        exact ⟨found, List.mem_cons_of_mem _ hfound, hbuilt⟩

theorem Calculates.uses {operation : Operation} {operands : List NodeId} {offset : Nat}
    (h : g.Calculates n operation operands offset) (hd : d ∈ operands) : g.Uses n d := by
  obtain ⟨-, tickets, hnode⟩ := h
  rw [Uses, dependencies, hnode]
  exact hd

/-- What an operand leads to, the calculation leads to. -/
theorem Calculates.reaches {operation : Operation} {operands : List NodeId} {offset : Nat} {a : NodeId}
    (h : g.Calculates n operation operands offset) (ha : a ∈ operands)
    (hreach : ∃ root, (.value a : Found NodeId RecordId) = .value root ∧ ReflTransGen g.Uses root d) :
    ∃ root, (.value n : Found NodeId RecordId) = .value root ∧ ReflTransGen g.Uses root d := by
  obtain ⟨root, hroot, hreach⟩ := hreach
  cases hroot
  exact ⟨n, rfl, .head (h.uses ha) hreach⟩

/-- The root of a tree depends on all that the tree names. -/
theorem Mentions.reaches {e : Expr} (h : g.Mentions scope e d) {found : Found NodeId RecordId}
    (hbuilt : g.Built scope e found) : ∃ root, found = .value root ∧ ReflTransGen g.Uses root d := by
  induction h generalizing found with
  | named h => exact ⟨_, h.eq_value hbuilt, .refl⟩
  | group _ ih =>
    cases hbuilt with
    | group hbuilt => exact ih hbuilt
  | argument he _ ih =>
    cases hbuilt with
    | call hf hs hn =>
      obtain ⟨found, hfound, hbuilt⟩ := hs.exists_mem he
      obtain ⟨a, ha, rfl⟩ := List.mem_map.mp hfound
      exact hn.reaches ha (ih hbuilt)
  | field _ ih =>
    cases hbuilt with
    | field hbuilt hf hn => exact hn.reaches (List.mem_singleton_self _) (ih hbuilt)
    | member hbuilt hr =>
      obtain ⟨root, hroot, -⟩ := ih hbuilt
      cases hroot
  | receiver _ ih =>
    cases hbuilt with
    | method hbuilt hf hs hn => exact hn.reaches List.mem_cons_self (ih hbuilt)
  | parameter he _ ih =>
    cases hbuilt with
    | method hbuilt hf hs hn =>
      obtain ⟨found, hfound, hbuilt⟩ := hs.exists_mem he
      obtain ⟨a, ha, rfl⟩ := List.mem_map.mp hfound
      exact hn.reaches (List.mem_cons_of_mem _ ha) (ih hbuilt)
  | unary _ ih =>
    cases hbuilt with
    | unary hbuilt hn => exact hn.reaches (List.mem_singleton_self _) (ih hbuilt)
  | left _ ih =>
    cases hbuilt with
    | binary hl hr hn => exact hn.reaches List.mem_cons_self (ih hl)
  | right _ ih =>
    cases hbuilt with
    | binary hl hr hn => exact hn.reaches (List.mem_cons_of_mem _ (List.mem_singleton_self _)) (ih hr)

/-- What has become of the formulas that waited to be built. -/
def Turned (g₀ : Graph) (_busy : List NodeId) (g : Graph) : Prop :=
  ∀ n scope source text, g₀.node n = .expression scope source → source.pending? = some text →
    g.node n = .expression scope source ∨
      ∃ tree, g.node n = .expression scope (.built tree) ∧
        (source = .edited text tree ∨ tree.text = text ∧ g.BuiltFrom scope text tree.root)

theorem Turned.later {g₀ : Graph} {busy busy' : List NodeId} (h : g₀.Turned busy g) (he : g.Extends g')
    (hnode : ∀ m, (g.node m).isExpression = true → g'.node m = g.node m) : g₀.Turned busy' g' := by
  intro n scope source text hn hp
  rcases h n scope source text hn hp with hsame | ⟨tree, htree, hturned⟩
  · exact .inl ((hnode n (by rw [hsame]; rfl)).trans hsame)
  · exact .inr ⟨tree, (hnode n (by rw [htree]; rfl)).trans htree,
      hturned.imp_right fun ⟨htext, hbuilt⟩ => ⟨htext, hbuilt.extends he⟩⟩

/-- A tree comes into its place, and the others stay in theirs. -/
theorem Turned.setTree {g₀ : Graph} {busy : List NodeId} {source : Source} {tree : Tree} (h : g₀.Turned busy g)
    (hn : g.node n = .expression scope source) (hsource : source.pending?.isSome = true)
    (htree : ∀ text, source.pending? = some text →
      source = .edited text tree ∨ tree.text = text ∧ g.BuiltFrom scope text tree.root) :
    g₀.Turned busy (g.modifyCell n fun c => { c with node := .expression scope (.built tree) }) := by
  have he : g.Extends (g.modifyCell n fun c => { c with node := .expression scope (.built tree) }) :=
    extends_setNode (by rw [hn]; rfl) _
  intro m scope' source' text hm hp
  rcases node_setNode g n (.expression scope (.built tree)) m with hsame | ⟨rfl, hnew⟩
  · rcases h m scope' source' text hm hp with hwaits | ⟨tree', htree', hturned⟩
    · exact .inl (hsame.trans hwaits)
    · exact .inr ⟨tree', hsame.trans htree', hturned.imp_right fun ⟨htext, hbuilt⟩ => ⟨htext, hbuilt.extends he⟩⟩
  · rcases h m scope' source' text hm hp with hwaits | ⟨tree', htree', -⟩
    · cases hn.symm.trans hwaits
      exact .inr ⟨tree, hnew, (htree text hp).imp_right fun ⟨htext, hbuilt⟩ => ⟨htext, hbuilt.extends he⟩⟩
    · cases hn.symm.trans htree'
      cases hsource

theorem lasts_turned (g₀ : Graph) : Lasts g₀.Turned where
  alike h halike := h.later halike.extends fun m _ => halike.node m
  add {_ g node} cache h hmade _ := by
    refine h.later (grows_addCell node cache).extends fun m hm => ?_
    rw [Graph.node, cell_addCell, if_neg, ← Graph.node]
    rintro rfl
    rw [Graph.node, cell_size] at hm
    cases hm
  start _ h := h.later (treesFrom_modifyCell (by exact fun _ => rfl)).extension fun m _ =>
    cell_modifyCell_congr Cell.node (by exact fun _ => rfl) m
  finish h := h.later (treesFrom_modifyCell (by exact fun _ => rfl)).extension fun m _ =>
    cell_modifyCell_congr Cell.node (by exact fun _ => rfl) m
  takeBack h hn := h.setTree hn rfl fun text hp => .inl (by cases hp; rfl)
  install h hn hp hbuilt _ _ := h.setTree hn (Option.isSome_of_eq_some hp) fun text hp' => by
    obtain rfl := Option.some.inj (hp.symm.trans hp')
    exact .inr ⟨rfl, hbuilt⟩

theorem turned_refl (g : Graph) (busy : List NodeId) : g.Turned busy g := fun _ _ _ _ hn _ => .inl hn

/-- The nodes that the scan of a formula comes to although it does not name them. -/
def straysIn (g : Graph) (scope : RecordId) (text : String) : List NodeId :=
  match tokenize text with
  | .ok tokens => ((scopeNames tokens).filter (· ∉ lookedUp tokens)).filterMap fun name =>
      (g.resolve? scope name).bind Member.node?
  | .error _ => []

/-- Those of the formula that a node waits to be built from. -/
def strays (g : Graph) (n : NodeId) : List NodeId :=
  match g.node n with
  | .expression scope source => source.pending?.toList.flatMap (g.straysIn scope)
  | _ => []

theorem straysIn_of_strays {source : Source} {text : String} (h : g.strays n = [])
    (hn : g.node n = .expression scope source) (hp : source.pending? = some text) : g.straysIn scope text = [] := by
  rw [strays, hn] at h
  simpa [hp] using h

theorem mem_straysIn {name : String} {text : String} {tokens : List Token} (htokens : tokenize text = .ok tokens)
    (hname : name ∈ scopeNames tokens) (hnot : name ∉ lookedUp tokens) (hn : g.resolve? scope name = some (.node n)) :
    n ∈ g.straysIn scope text := by
  rw [straysIn, htokens]
  refine List.mem_filterMap.mpr ⟨name, List.mem_filter.mpr ⟨hname, decide_eq_true hnot⟩, ?_⟩
  rw [hn]
  rfl

/-- A formula whose tree is in place covers what the root depends on, if its scan does not go astray. -/
theorem BuiltFrom.covers {text : String} {root : NodeId} (h : g'.BuiltFrom scope text root)
    (hrecords : g'.records = g.records) (hstrays : g.straysIn scope text = []) {K : NodeId → Prop}
    (hK : ∀ m, ReflTransGen g'.Uses root m → K m) : g.Covers K scope text := by
  obtain ⟨-, tokens, e, htokens, hspells, hbuilt⟩ := h
  have hmentions : ∀ m, g.Mentions scope e m → K m := fun m hm => by
    obtain ⟨root', hroot, hreach⟩ := (hm.of_records hrecords).reaches hbuilt
    cases hroot
    exact hK m hreach
  refine ⟨tokens, e, htokens, hspells, fun name hname m hm => ?_, hmentions⟩
  by_cases hlooked : name ∈ lookedUp tokens
  · rw [← List.append_nil tokens] at hlooked
    exact hmentions m ((finds_of_spells delimited_nil hlooked hspells).resolve_right List.not_mem_nil m hm)
  · have hstray := mem_straysIn htokens hname hlooked hm
    rw [hstrays] at hstray
    cases hstray

/-- What a clean node leads to has the value that follows from what it reads. -/
theorem Sound.fresh_below {ext : List Hold} (h : g.Sound ext []) (hn : 0 < (g.cell n).owners)
    (hclean : (g.cell n).dirty = false) (hreaches : ReflTransGen g.Uses n d) : g.Fresh d := by
  have hlive : 0 < (g.cell d).owners := by
    induction hreaches with
    | refl => exact hn
    | tail _ hd ih => exact h.accounts.dependency_live ih hd
  exact h.coherent.fresh d hlive (h.clean_below hn hclean hreaches) List.not_mem_nil

/-- After a read that takes no edit back and scans no formula wrong, what the node depends on and what is new is all
that could be touched. -/
theorem seals_of_read {ext : List Hold} {v : Value} (h : g.Sound ext []) (hn : g.Anchored ext n)
    (hr : g.read n = (.ok v, g'))
    (hkept : ∀ m scope text old, ReflTransGen g'.Uses n m → g.node m = .expression scope (.edited text old) →
      g'.node m ≠ .expression scope (.built old))
    (hstrays : ∀ m, ReflTransGen g'.Uses n m → g.strays m = []) :
    g.Seals fun m => g.cells.size ≤ m ∨ ReflTransGen g'.Uses n m := by
  obtain ⟨hsound, hgrows, hvalue⟩ := readNode_reads h hn
  have hturned := @readNode_keeps _ (lasts_turned g).abides [] g ext [] n h hn (turned_refl g [])
  rw [Graph.read] at hr
  rw [hr] at hsound hgrows hvalue hturned
  have hlive := (hn.grows h.accounts hgrows).live hsound.accounts
  have hsteady : ∀ m, ReflTransGen g'.Uses n m → (g'.node m).isPending = false := fun m hm => by
    obtain ⟨-, _, -, hgiven⟩ := hsound.fresh_below hlive (hvalue v rfl).1 hm
    exact not_pending_of_given? hgiven
  refine ⟨fun m hm => .inl hm, fun m d hm _ hnode hd => ?_, fun m scope source text hm hnode hp => ?_⟩
  · have hlt : m < g.cells.size := lt_size_of_node fun he => by
      rw [dependencies, he] at hd
      cases hd
    have hreach := hm.resolve_left (Nat.not_le_of_lt hlt)
    rw [dependencies, ← hgrows.node m trivial hlt (.inl hnode)] at hd
    exact .inr (hreach.tail hd)
  · have hlt : m < g.cells.size := lt_size_of_node (by simp [hnode])
    have hreach := hm.resolve_left (Nat.not_le_of_lt hlt)
    rcases hturned m scope source text hnode hp with hsame | ⟨tree, htree, hback | ⟨-, hbuilt⟩⟩
    · have hnot := hsteady m hreach
      rw [hsame, Node.isPending, hp] at hnot
      cases hnot
    · exact (hkept m scope text tree hreach (hback ▸ hnode) htree).elim
    · refine hbuilt.covers hgrows.records (straysIn_of_strays (hstrays m hreach) hnode hp) fun d hd => .inr ?_
      refine hreach.trans (.head ?_ hd)
      rw [Uses, dependencies, htree]
      exact List.mem_singleton_self _

end Graph

namespace Workspace

variable {w : Workspace} {n : NodeId}

/-- In every state that is reached, the nodes that a read works out or gives another formula are nodes that the one
that is read depends on when it is done, provided that no edit below it is taken back and no formula below it that
waits to be built holds a name, of a unit behind a number or of a function or a truth value, that stands for a node. -/
theorem dependsOn_of_touched {limit : Nat} {steps : List Step}
    (h : Workspace.run limit {} (steps.map .perform) = some w) (hn : w.graph.Anchored w.holds n) {v : Value}
    {g : Graph} (hr : w.graph.read n = (.ok v, g))
    (hkept : ∀ m scope text old, g.dependsOn n m = true → w.graph.node m = .expression scope (.edited text old) →
      g.node m ≠ .expression scope (.built old))
    (hstrays : ∀ m, g.dependsOn n m = true → w.graph.strays m = []) {m : NodeId} (hm : m < w.graph.cells.size)
    (htouched : (g.cell m).evaluations ≠ (w.graph.cell m).evaluations ∨
      (g.node m).formula? ≠ (w.graph.node m).formula?) : g.dependsOn n m = true := by
  have hseals := seals_of_read (sound_of_run h) hn hr
    (fun m scope text old hm => hkept m scope text old (dependsOn_iff.mpr hm))
    fun m hm => hstrays m (dependsOn_iff.mpr hm)
  have hconfined := hseals.read (sound_of_run h) hn (.inr .refl)
  rw [hr] at hconfined
  by_contra hnot
  have hoff : ¬ (w.graph.cells.size ≤ m ∨ ReflTransGen g.Uses n m) := fun hin =>
    hnot (dependsOn_iff.mpr (hin.resolve_left (Nat.not_le_of_lt hm)))
  rcases hconfined.fenced with ⟨x, scope, text, old, hx, hbefore, hafter⟩ | hfenced
  · have hlt : x < w.graph.cells.size := lt_size_of_node (by simp [hbefore])
    exact hkept x scope text old (dependsOn_iff.mpr (hx.resolve_left (Nat.not_le_of_lt hlt))) hbefore hafter
  · obtain ⟨hevaluations, hnode⟩ := hfenced.outside m hoff
    rw [hevaluations, hnode] at htouched
    simp at htouched

/-- "e" comes to read "a", with a unit that nothing is named after. -/
def readingSteps : List Step :=
  [.record "r" none, .expression "r" "a" "a" "1mm", .expression "r" "e" "e" "2mm", .read "e",
    .setFormula "e" "a + 2mm"]

theorem dependsOn_of_read :
    ∃ w n m v g, Workspace.run 100 {} (readingSteps.map .perform) = some w ∧ w.handles["e"]? = some n ∧
      w.handles["a"]? = some m ∧ w.graph.read n = (.ok v, g) ∧
        (g.cell m).evaluations ≠ (w.graph.cell m).evaluations ∧ g.dependsOn n m = true := by
  have hrun : ((Workspace.run 100 {} (readingSteps.map .perform)).bind fun w =>
      w.handles["e"]?.bind fun n => w.handles["a"]?.bind fun m =>
        (w.graph.read n).1.toOption.map fun _ =>
          (decide (m < w.graph.cells.size), ((w.graph.read n).2.cell m).evaluations, (w.graph.cell m).evaluations,
            (List.range w.graph.cells.size).all fun k => w.graph.strays k == [] &&
              (w.graph.node k).tree?.toList.all fun old => ((w.graph.read n).2.node k).formula? != some old.2.text)) =
      some (true, 1, 0, true) := by
    decide +kernel
  simp only [Option.bind_eq_some_iff, Option.map_eq_some_iff, toOption_eq_some, Prod.mk.injEq, decide_eq_true_eq,
    List.all_eq_true, List.mem_range, Bool.and_eq_true, beq_iff_eq, bne_iff_ne] at hrun
  obtain ⟨w, hw, n, hn, m, hm, v, hv, hlt, hafter, hbefore, hall⟩ := hrun
  have hr : w.graph.read n = (.ok v, (w.graph.read n).2) := Prod.ext hv rfl
  have htouched : ((w.graph.read n).2.cell m).evaluations ≠ (w.graph.cell m).evaluations := by
    rw [hafter, hbefore]
    decide
  refine ⟨w, n, m, v, _, hw, hn, hm, hr, htouched, dependsOn_of_touched hw (.outside (mem_holds_of_handle hn)) hr
    (fun k scope text old _ hk hback => ?_) (fun k _ => ?_) hlt (.inl htouched)⟩
  · obtain ⟨-, hold⟩ := hall k (lt_size_of_node (by simp [hk]))
    refine hold (scope, old) ?_ (congrArg Node.formula? hback)
    rw [hk]
    exact List.mem_singleton_self _
  · by_cases hk : k < w.graph.cells.size
    · exact (hall k hk).1
    · rw [Graph.strays, by_contra fun hnode => hk (lt_size_of_node hnode)]

/-- The unit in the formula of "e" is spelled like another property of the record. -/
def unitSteps : List Step :=
  [.record "r" none, .expression "r" "mm" "mm" "1 + 1", .expression "r" "e" "e" "2mm"]

/-- The read of "e" works "mm" out, which "e" does not depend on. -/
theorem not_dependsOn_of_unit :
    ∃ w n m v g, Workspace.run 100 {} (unitSteps.map .perform) = some w ∧ w.handles["e"]? = some n ∧
      w.handles["mm"]? = some m ∧ w.graph.read n = (.ok v, g) ∧ m < w.graph.cells.size ∧
        (g.cell m).evaluations ≠ (w.graph.cell m).evaluations ∧ g.dependsOn n m = false := by
  have hrun : ((Workspace.run 100 {} (unitSteps.map .perform)).bind fun w =>
      w.handles["e"]?.bind fun n => w.handles["mm"]?.bind fun m =>
        (w.graph.read n).1.toOption.map fun _ =>
          (decide (m < w.graph.cells.size), ((w.graph.read n).2.cell m).evaluations, (w.graph.cell m).evaluations,
            (w.graph.read n).2.dependsOn n m)) = some (true, 1, 0, false) := by
    decide +kernel
  simp only [Option.bind_eq_some_iff, Option.map_eq_some_iff, toOption_eq_some, Prod.mk.injEq,
    decide_eq_true_eq] at hrun
  obtain ⟨w, hw, n, hn, m, hm, v, hv, hlt, hafter, hbefore, hnot⟩ := hrun
  refine ⟨w, n, m, v, _, hw, hn, hm, Prod.ext hv rfl, hlt, ?_, hnot⟩
  rw [hafter, hbefore]
  decide

end Workspace

end FormulaGraph
