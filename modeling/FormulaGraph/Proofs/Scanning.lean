import FormulaGraph.Proofs.Straying

/-! What the scan of a formula for names comes to. In a formula that reaches no record, and none of whose names
is that of a unit, a function or a truth value, it is what the tree names that is built for it. -/

namespace FormulaGraph

open FormulaGraph.Graph Relation

/-- Spelled like a unit, a function or a truth value. -/
def isReserved (name : String) : Bool :=
  (Suffix.ofSymbol? name).isSome || (Builtin.ofName? name).isSome || (boolNamed? name).isSome

theorem isReserved_symbol (suffix : Suffix) : isReserved suffix.symbol = true := by
  rw [isReserved, Suffix.ofSymbol?_symbol]
  rfl

theorem isReserved_of_builtin {name : String} {f : Builtin} (h : Builtin.ofName? name = some f) :
    isReserved name = true := by
  simp [isReserved, h]

theorem isReserved_of_bool {name : String} {b : Bool} (h : boolNamed? name = some b) : isReserved name = true := by
  simp [isReserved, h]

section

variable {tokens : List Token}

theorem scopeNames_number (offset : Nat) (digits : String) :
    scopeNames (⟨offset, .number digits⟩ :: tokens) = scopeNames tokens := by
  rw [scopeNames] <;> simp

theorem scopeNames_text (offset : Nat) (contents : String) :
    scopeNames (⟨offset, .text contents⟩ :: tokens) = scopeNames tokens := by
  rw [scopeNames] <;> simp

theorem scopeNames_name (offset : Nat) (name : String) :
    scopeNames (⟨offset, .name name⟩ :: tokens) = name :: scopeNames tokens := by
  rw [scopeNames]

theorem scopeNames_symbol {symbol : Symbol} (h : symbol ≠ .dot) (offset : Nat) :
    scopeNames (⟨offset, .symbol symbol⟩ :: tokens) = scopeNames tokens := by
  rw [scopeNames] <;> simp [h]

end

mutual

/-- What spells a tree does not end in a dot, so the scan goes on behind it as it would from the start. -/
theorem scopeNames_append_of_spells {k : Nat} {e : Expr} {ts : List Token} (rest : List Token) :
    Spells k e ts → scopeNames (ts ++ rest) = scopeNames ts ++ scopeNames rest
  | .number digits none offset place => by
    rw [suffixTokens]
    simp [scopeNames_number, scopeNames]
  | .number digits (some suffix) offset place => by
    rw [suffixTokens]
    simp [scopeNames_number, scopeNames_name, scopeNames]
  | .text contents offset => by simp [scopeNames_text, scopeNames]
  | .name name offset => by simp [scopeNames_name, scopeNames]
  | .group opening closing h => by
    simp [scopeNames_symbol, scopeNames_append_of_spells _ h, scopeNames]
  | .call callee offset opening closing h => by
    simp [scopeNames_name, scopeNames_append_of_spellsAll _ h, scopeNames]
  | .field field dot offset h => by
    simp [scopeNames_append_of_spells _ h, scopeNames]
  | .method method dot offset opening closing h hs => by
    simp [scopeNames_append_of_spells _ h, scopeNames_append_of_spellsAll _ hs, scopeNames]
  | .unary op offset hk h => by
    have hop : op.mark ≠ .dot := by cases op <;> decide
    simp [scopeNames_symbol hop, scopeNames_append_of_spells _ h]
  | .binary op offset hk hl hr => by
    simp [scopeNames_append_of_spells _ hl, scopeNames_append_of_spells _ hr, scopeNames_symbol]

theorem scopeNames_append_of_spellsAll {es : List Expr} {ts : List Token} (rest : List Token) :
    SpellsAll es ts → scopeNames (ts ++ rest) = scopeNames ts ++ scopeNames rest
  | .nil => by simp [scopeNames]
  | .last h => scopeNames_append_of_spells rest h
  | .more comma h hs => by
    simp [scopeNames_append_of_spells _ h, scopeNames_append_of_spellsAll _ hs, scopeNames_symbol]

end

section

variable {k : Nat} {e : Expr} {es : List Expr} {ts us : List Token}

theorem scopeNames_group (h : Spells k e ts) (opening closing : Nat) :
    scopeNames (⟨opening, .symbol .opening⟩ :: (ts ++ [⟨closing, .symbol .closing⟩])) = scopeNames ts := by
  simp [scopeNames_append_of_spells _ h, scopeNames]

theorem scopeNames_call (hs : SpellsAll es ts) (name : String) (offset opening closing : Nat) :
    scopeNames (⟨offset, .name name⟩ :: ⟨opening, .symbol .opening⟩ :: (ts ++ [⟨closing, .symbol .closing⟩])) =
      name :: scopeNames ts := by
  simp [scopeNames_append_of_spellsAll _ hs, scopeNames]

theorem scopeNames_field (h : Spells k e ts) (name : String) (dot offset : Nat) :
    scopeNames (ts ++ [⟨dot, .symbol .dot⟩, ⟨offset, .name name⟩]) = scopeNames ts := by
  simp [scopeNames_append_of_spells _ h, scopeNames]

theorem scopeNames_method (h : Spells k e ts) (hs : SpellsAll es us) (name : String)
    (dot offset opening closing : Nat) :
    scopeNames (ts ++ ⟨dot, .symbol .dot⟩ :: ⟨offset, .name name⟩ :: ⟨opening, .symbol .opening⟩ ::
      (us ++ [⟨closing, .symbol .closing⟩])) = scopeNames ts ++ scopeNames us := by
  simp [scopeNames_append_of_spells _ h, scopeNames_append_of_spellsAll _ hs, scopeNames]

theorem scopeNames_unary (op : UnaryOp) (offset : Nat) (ts : List Token) :
    scopeNames (⟨offset, .symbol op.mark⟩ :: ts) = scopeNames ts :=
  scopeNames_symbol (by cases op <;> decide) offset

theorem scopeNames_binary (h : Spells k e ts) (op : BinaryOp) (offset : Nat) (us : List Token) :
    scopeNames (ts ++ ⟨offset, .symbol (.binary op)⟩ :: us) = scopeNames ts ++ scopeNames us := by
  rw [scopeNames_append_of_spells _ h, scopeNames_symbol (by simp)]

theorem scopeNames_more (h : Spells k e ts) (comma : Nat) (us : List Token) :
    scopeNames (ts ++ ⟨comma, .symbol .comma⟩ :: us) = scopeNames ts ++ scopeNames us := by
  rw [scopeNames_append_of_spells _ h, scopeNames_symbol (by decide)]

end

namespace Graph

variable {g : Graph} {scope : RecordId} {d : NodeId}

mutual

/-- What a name of the scan stands for is named by the tree, by induction on what spells it. -/
theorem mentions_of_spells {k : Nat} {e : Expr} {ts : List Token} {name : String} {found : Found NodeId RecordId}
    (hname : name ∈ scopeNames ts) (hbuilt : g.Built scope e found) :
    Spells k e ts → isReserved name = true ∨ ∀ n, g.resolve? scope name = some (.node n) → g.Mentions scope e n
  | .number digits none offset place => by
    simp [suffixTokens, scopeNames] at hname
  | .number digits (some suffix) offset place => by
    obtain rfl : name = suffix.symbol := by simpa [suffixTokens, scopeNames] using hname
    exact .inl (isReserved_symbol suffix)
  | .text contents offset => by simp [scopeNames] at hname
  | .name found offset => by
    obtain rfl : name = found := by simpa [scopeNames] using hname
    cases hbuilt with
    | bool hb hn => exact .inl (isReserved_of_bool hb)
    | resolved hb | constant hb => exact .inr fun n hn => .named (.name hb hn)
  | .group opening closing h => by
    rw [scopeNames_group h] at hname
    cases hbuilt with
    | group hbuilt => exact (mentions_of_spells hname hbuilt h).imp_right fun hm n hn => .group (hm n hn)
  | .call callee offset opening closing hs => by
    rw [scopeNames_call hs] at hname
    cases hbuilt with
    | call hf hbuilts hn =>
      rcases List.mem_cons.mp hname with rfl | hname
      · exact .inl (isReserved_of_builtin hf)
      · exact (mentionsAll_of_spells hname hbuilts hs).imp_right fun ⟨e, he, hm⟩ n hn => .argument he (hm n hn)
  | .field field dot offset h => by
    rw [scopeNames_field h] at hname
    cases hbuilt with
    | field hbuilt | member hbuilt =>
      exact (mentions_of_spells hname hbuilt h).imp_right fun hm n hn => .field (hm n hn)
  | .method method dot offset opening closing h hs => by
    rw [scopeNames_method h hs] at hname
    cases hbuilt with
    | method hbuilt hf hbuilts hn =>
      rcases List.mem_append.mp hname with hname | hname
      · exact (mentions_of_spells hname hbuilt h).imp_right fun hm n hn => .receiver (hm n hn)
      · exact (mentionsAll_of_spells hname hbuilts hs).imp_right fun ⟨e, he, hm⟩ n hn => .parameter he (hm n hn)
  | .unary op offset hk h => by
    rw [scopeNames_unary] at hname
    cases hbuilt with
    | unary hbuilt hn => exact (mentions_of_spells hname hbuilt h).imp_right fun hm n hn => .unary (hm n hn)
  | .binary op offset hk hl hr => by
    rw [scopeNames_binary hl] at hname
    cases hbuilt with
    | binary hbuilt hbuilt' hn =>
      rcases List.mem_append.mp hname with hname | hname
      · exact (mentions_of_spells hname hbuilt hl).imp_right fun hm n hn => .left (hm n hn)
      · exact (mentions_of_spells hname hbuilt' hr).imp_right fun hm n hn => .right (hm n hn)

theorem mentionsAll_of_spells {es : List Expr} {ts : List Token} {name : String}
    {founds : List (Found NodeId RecordId)} (hname : name ∈ scopeNames ts) (hbuilt : g.BuiltAll scope es founds) :
    SpellsAll es ts → isReserved name = true ∨
      ∃ e ∈ es, ∀ n, g.resolve? scope name = some (.node n) → g.Mentions scope e n
  | .nil => by simp [scopeNames] at hname
  | .last h => by
    cases hbuilt with
    | cons hbuilt hbuilts =>
      exact (mentions_of_spells hname hbuilt h).imp_right fun hm => ⟨_, List.mem_singleton_self _, hm⟩
  | .more comma h hs => by
    rw [scopeNames_more h] at hname
    cases hbuilt with
    | cons hbuilt hbuilts =>
      rcases List.mem_append.mp hname with hname | hname
      · exact (mentions_of_spells hname hbuilt h).imp_right fun hm => ⟨_, List.mem_cons_self, hm⟩
      · exact (mentionsAll_of_spells hname hbuilts hs).imp_right fun ⟨e, he, hm⟩ => ⟨e, List.mem_cons_of_mem _ he, hm⟩

end

/-- The scan of the tokens comes to a name of the node, or to one of a record. -/
def Spots (g : Graph) (scope : RecordId) (d : NodeId) (ts : List Token) : Prop :=
  ∃ name ∈ scopeNames ts, g.resolve? scope name = some (.node d) ∨ ∃ r, g.resolve? scope name = some (.record r)

theorem Spots.mono {ts ts' : List Token} (h : g.Spots scope d ts) (hsub : scopeNames ts ⊆ scopeNames ts') :
    g.Spots scope d ts' := by
  obtain ⟨name, hname, hstands⟩ := h
  exact ⟨name, hsub hname, hstands⟩

/-- What leads to a record begins with the name of one. -/
theorem Built.spots_of_scope {k : Nat} (e : Expr) {ts : List Token} {r : RecordId} {found : Found NodeId RecordId}
    (h : g.Built scope e found) (hfound : found = .scope r) (hspells : Spells k e ts) : g.Spots scope d ts := by
  cases e with
  | name name offset =>
    cases hspells
    cases h with
    | @resolved _ _ member hb hr =>
      cases member with
      | record r => exact ⟨name, by simp [scopeNames], .inr ⟨r, hr⟩⟩
      | node | list => cases hfound
    | bool | constant => cases hfound
  | group inner =>
    cases hspells with
    | group opening closing hspells =>
      cases h with
      | group h => exact (h.spots_of_scope inner hfound hspells).mono (by rw [scopeNames_group hspells]; simp)
  | field receiver name offset =>
    cases hspells with
    | field _ dot _ hspells =>
      cases h with
      | member h hr => exact (h.spots_of_scope receiver rfl hspells).mono (by rw [scopeNames_field hspells]; simp)
      | field => cases hfound
  | number | text | call | method | unary | binary => cases h <;> cases hfound

theorem Named.spots {k : Nat} {e : Expr} {ts : List Token} (h : g.Named scope e d) (hspells : Spells k e ts) :
    g.Spots scope d ts := by
  induction h generalizing k ts with
  | @name name _ _ hb hr =>
    cases hspells
    exact ⟨name, by simp [scopeNames], .inl hr⟩
  | member h hr =>
    cases hspells with
    | field _ dot _ hspells => exact (h.spots_of_scope _ rfl hspells).mono (by rw [scopeNames_field hspells]; simp)
  | group h ih =>
    cases hspells with
    | group opening closing hspells => exact (ih hspells).mono (by rw [scopeNames_group hspells]; simp)

theorem exists_spells_of_mem {es : List Expr} {ts : List Token} {e : Expr} (he : e ∈ es) :
    SpellsAll es ts → ∃ us, Spells 0 e us ∧ scopeNames us ⊆ scopeNames ts
  | .nil => by cases he
  | .last h => by
    obtain rfl := List.mem_singleton.mp he
    exact ⟨ts, h, List.Subset.refl _⟩
  | .more comma h hs => by
    rw [scopeNames_more h]
    rcases List.mem_cons.mp he with rfl | he
    · exact ⟨_, h, List.subset_append_left _ _⟩
    · obtain ⟨us, hus, hsub⟩ := exists_spells_of_mem he hs
      exact ⟨us, hus, List.subset_append_of_subset_right _ hsub⟩

/-- The scan comes to whatever the tree names, or comes by a record. -/
theorem Mentions.spots {k : Nat} {e : Expr} {ts : List Token} (h : g.Mentions scope e d)
    (hspells : Spells k e ts) : g.Spots scope d ts := by
  induction h generalizing k ts with
  | named h => exact h.spots hspells
  | group _ ih =>
    cases hspells with
    | group opening closing hspells => exact (ih hspells).mono (by rw [scopeNames_group hspells]; simp)
  | argument he _ ih =>
    cases hspells with
    | call _ _ opening closing hs =>
      obtain ⟨us, hus, hsub⟩ := exists_spells_of_mem he hs
      refine (ih hus).mono ?_
      rw [scopeNames_call hs]
      exact List.subset_cons_of_subset _ hsub
  | field _ ih =>
    cases hspells with
    | field _ dot _ hspells => exact (ih hspells).mono (by rw [scopeNames_field hspells]; simp)
  | receiver _ ih =>
    cases hspells with
    | method _ dot _ opening closing hspells hs =>
      exact (ih hspells).mono (by rw [scopeNames_method hspells hs]; simp)
  | parameter he _ ih =>
    cases hspells with
    | method _ dot _ opening closing hspells hs =>
      obtain ⟨us, hus, hsub⟩ := exists_spells_of_mem he hs
      refine (ih hus).mono ?_
      rw [scopeNames_method hspells hs]
      exact List.subset_append_of_subset_right _ hsub
  | unary _ ih =>
    cases hspells with
    | unary _ _ hk hspells => exact (ih hspells).mono (by rw [scopeNames_unary]; simp)
  | left _ ih =>
    cases hspells with
    | binary _ _ hk hl hr => exact (ih hl).mono (by rw [scopeNames_binary hl]; simp)
  | right _ ih =>
    cases hspells with
    | binary _ _ hk hl hr => exact (ih hr).mono (by rw [scopeNames_binary hl]; simp)

/-- No name in the formula that a node waits to be built from stands for a record, and none that is reserved stands
for a node. -/
def NamesPlainly (g : Graph) (n : NodeId) : Prop :=
  ∀ scope source text tokens, g.node n = .expression scope source → source.pending? = some text →
    tokenize text = .ok tokens → ∀ name ∈ scopeNames tokens, (∀ r, g.resolve? scope name ≠ some (.record r)) ∧
      (isReserved name = true → ∀ d, g.resolve? scope name ≠ some (.node d))

/-- What a name that is used plainly may stand for. -/
def plainly (name : String) : Member → Bool
  | .node _ => !isReserved name
  | .record _ => false
  | .list _ => true

/-- The same, computed. -/
def namesPlainly (g : Graph) (n : NodeId) : Bool :=
  match g.node n with
  | .expression scope source => source.pending?.toList.all fun text =>
      (tokenize text).toOption.toList.all fun tokens =>
        (scopeNames tokens).all fun name => (g.resolve? scope name).all (plainly name)
  | _ => true

section

variable {g' : Graph} {ext : List Hold} {n : NodeId} {source : Source} {text : String} {tokens : List Token}
  {e : Expr}

theorem all_plainly_iff {name : String} {member? : Option Member} :
    member?.all (plainly name) = true ↔
      (∀ r, member? ≠ some (.record r)) ∧ (isReserved name = true → ∀ d, member? ≠ some (.node d)) := by
  rcases member? with _ | ⟨d | r | items⟩ <;> simp [plainly]

theorem namesPlainly_iff : g.namesPlainly n = true ↔ g.NamesPlainly n := by
  rw [namesPlainly]
  constructor
  · intro hall scope source text tokens hnode hp htokens
    simpa [hnode, hp, htokens, all_plainly_iff, Except.toOption] using hall
  · intro hplain
    cases hnode : g.node n with
    | constant | input | calculation => rfl
    | expression scope source =>
      simp only [List.all_eq_true, Option.mem_toList, toOption_eq_some, all_plainly_iff]
      exact fun text hp tokens htokens => hplain scope source text tokens hnode hp htokens

instance : Decidable (g.NamesPlainly n) := decidable_of_iff _ namesPlainly_iff

theorem inputs_congr (hrecords : g'.records = g.records) (hnode : g'.node n = g.node n) :
    g'.inputs n = g.inputs n := by
  have hnamed : ∀ scope text, g'.namedIn scope text = g.namedIn scope text := fun scope text => by
    rw [namedIn, namedIn, scopeIsLive, scopeIsLive, record, hrecords]
    simp only [resolve?_of_records hrecords]
    rfl
  rw [inputs, inputs, hnode, dependencies, dependencies, hnode]
  simp only [hnamed]

theorem lt_size_of_inputs (ha : g.Accounts ext) (hn : g.Anchored ext n) : ∀ d ∈ g.inputs n, d < g.cells.size :=
  fun d hd => lt_size_of_owners_pos ((inputs_anchored ha hn d hd).live ha)

theorem NamesPlainly.congr (h : g.NamesPlainly n) (hrecords : g'.records = g.records)
    (hnode : g'.node n = g.node n) : g'.NamesPlainly n := by
  intro scope source text tokens hn hp htokens name hname
  rw [resolve?_of_records hrecords]
  exact h scope source text tokens (hnode.symm.trans hn) hp htokens name hname

theorem inputs_of_pending (hnode : g.node n = .expression scope source) (hp : source.pending? = some text) :
    g.inputs n = g.namedIn scope text := by
  rw [inputs, hnode]
  dsimp only
  rw [hp]

theorem mem_namedIn (hlive : g.scopeIsLive scope = true) (htokens : tokenize text = .ok tokens) :
    d ∈ g.namedIn scope text ↔ ∃ name ∈ scopeNames tokens, g.resolve? scope name = some (.node d) := by
  rw [namedIn, if_pos hlive, htokens]
  refine List.mem_filterMap.trans (exists_congr fun name => and_congr_right fun _ => ?_)
  rw [Option.bind_eq_some_iff]
  constructor
  · rintro ⟨member, hm, hd⟩
    cases member with
    | node => cases hd; exact hm
    | record | list => cases hd
  · exact fun hm => ⟨_, hm, rfl⟩

/-- All that a tree names that the formula may be read as is among the inputs of its node. -/
theorem NamesPlainly.inputs_of_mentions (h : g.NamesPlainly n) (hnode : g.node n = .expression scope source)
    (hp : source.pending? = some text) (hlive : g.scopeIsLive scope = true) (htokens : tokenize text = .ok tokens)
    (hspells : Spells 0 e tokens) (hm : g.Mentions scope e d) : d ∈ g.inputs n := by
  obtain ⟨name, hname, hd | ⟨r, hr⟩⟩ := hm.spots hspells
  · rw [inputs_of_pending hnode hp]
    exact (mem_namedIn hlive htokens).mpr ⟨name, hname, hd⟩
  · exact ((h scope source text tokens hnode hp htokens name hname).1 r hr).elim

/-- The inputs of a node whose formula can be built are named by the tree that is built for it. -/
theorem NamesPlainly.mentions_of_inputs (h : g.NamesPlainly n) (hnode : g.node n = .expression scope source)
    (hp : source.pending? = some text) (hlive : g.scopeIsLive scope = true) (htokens : tokenize text = .ok tokens)
    (hspells : Spells 0 e tokens) (hrecords : g'.records = g.records) {found : Found NodeId RecordId}
    (hbuilt : g'.Built scope e found) (hd : d ∈ g.inputs n) : g'.Mentions scope e d := by
  rw [inputs_of_pending hnode hp] at hd
  obtain ⟨name, hname, hd⟩ := (mem_namedIn hlive htokens).mp hd
  rcases mentions_of_spells hname hbuilt hspells with hreserved | hm
  · exact ((h scope source text tokens hnode hp htokens name hname).2 hreserved d hd).elim
  · exact hm d ((resolve?_of_records hrecords scope name).trans hd)

end

end Graph

end FormulaGraph
