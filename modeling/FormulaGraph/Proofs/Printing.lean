import FormulaGraph.Proofs.Lexing
import FormulaGraph.Proofs.Valuing

/-! Texts that spell trees with values, whatever stands behind them, as long as no name and no number goes
on there. -/

namespace FormulaGraph

variable {c : Char} {l l' text text' after raw contents : List Char} {offset last k k' : Nat} {x : Float}
  {v w : Value} {e : Expr} {ts us : List Token} {lexeme : Lexeme}

/-- No name and no number goes on with the text. -/
def Apart (after : List Char) : Prop := ∀ c ∈ after.head?, isNameChar c = false ∧ c ≠ '.'

theorem apart_nil : Apart [] := by simp [Apart]

theorem apart_cons (h : isNameChar c = false ∧ c ≠ '.') : Apart (c :: after) := by simpa [Apart] using h

theorem Apart.number (h : Apart after) : ∀ c ∈ after.head?, c.isDigit = false ∧ c ≠ '.' := fun c hc => by
  obtain ⟨hname, hpoint⟩ := h c hc
  refine ⟨Bool.eq_false_iff.mpr fun hd => ?_, hpoint⟩
  have hbounds := Char.bounds_of_isDigit hd
  simp [isNameChar, isNumeral, hd, show c.toNat < 128 by omega] at hname

/-! Lexemes with a text behind them. -/

/-- What is made of certain characters stops where another one stands. -/
theorem length_le_of_stops {p : Char → Prop} (hl : l' <+: l ++ after) (hp : ∀ c ∈ l', p c)
    (hstop : ∀ c ∈ after.head?, ¬ p c) : l'.length ≤ l.length := by
  by_contra hlt
  obtain ⟨m, rfl⟩ := List.prefix_of_prefix_length_le (List.prefix_append l after) hl (by omega)
  have hm := (List.prefix_append_right_inj l).mp hl
  cases m with
  | nil => simp at hlt
  | cons c m =>
    obtain ⟨rest, rfl⟩ := hm
    exact hstop c rfl (hp c (by simp))

theorem longest_numeral (h : Numeral l) (ha : ∀ c ∈ after.head?, c.isDigit = false ∧ c ≠ '.') :
    Longest (l ++ after) l (.number (String.ofList l)) where
  spelled := .number h
  starts := List.prefix_append l after
  length_le h' hl := by
    obtain ⟨c, rest, rfl, -⟩ := (Spelled.number h).exists_cons
    have hstarts := startsNumber_of_numeral h (List.prefix_append (c :: rest) after)
    refine ((longest_number hstarts).length_le h' hl).trans (length_le_of_stops ⟨_, takeNumber_append _⟩
      (numeral_takeNumber hstarts).chars fun c hc hchar => ?_)
    obtain ⟨hdigit, hpoint⟩ := ha c hc
    rcases hchar with hchar | hchar
    · rw [hdigit] at hchar
      cases hchar
    · exact hpoint hchar

/-- A name from its first character on. -/
def Word (l : List Char) : Prop := ∃ c rest, l = c :: rest ∧ isNameStart c = true ∧ ∀ x ∈ rest, isNameChar x = true

theorem word_of_all (hc : isNameStart c = true) (hall : text.all isNameChar = true) : Word (c :: text) :=
  ⟨c, text, rfl, hc, List.all_eq_true.mp hall⟩

/-- A number behind which a name stands ends there. -/
theorem Word.head (h : Word l) : ∀ c ∈ l.head?, c.isDigit = false ∧ c ≠ '.' := by
  obtain ⟨c, rest, rfl, hc, -⟩ := h
  refine fun d hd => ?_
  obtain rfl : c = d := Option.some.inj hd
  refine ⟨Bool.eq_false_iff.mpr fun hdigit => ?_, fun hpoint => ?_⟩
  · rw [not_isNameStart_of_isDigit hdigit] at hc
    cases hc
  · subst hpoint
    cases hc

theorem longest_word (h : Word l) (ha : Apart after) : Longest (l ++ after) l (.name (String.ofList l)) := by
  obtain ⟨c, rest, rfl, hc, hrest⟩ := h
  refine ⟨.name hc hrest, List.prefix_append _ after, fun h' hl => ?_⟩
  refine ((longest_name hc).length_le h' hl).trans (Nat.succ_le_succ ?_)
  exact length_le_of_stops (List.takeWhile_prefix _) (List.all_eq_true.mp List.all_takeWhile) fun x hx hname => by
    rw [(ha x hx).1] at hname
    cases hname

/-- The marks that no longer ones start with. -/
def Symbol.lone : List Symbol := [.binary .sub, .binary .mul, .binary .div, .opening, .closing, .comma]

theorem longest_lone {s : Symbol} (h : s ∈ Symbol.lone) (after : List Char) :
    Longest (s.spelling.toList ++ after) s.spelling.toList (.symbol s) := by
  have hcons : ∀ s ∈ Symbol.lone, ∃ c, s.spelling.toList = [c] ∧ ∀ text, Symbol.leading? (c :: text) = some s ∧
      startsNumber c text = false := by
    simp only [Symbol.lone, List.forall_mem_cons]
    exact ⟨⟨_, rfl, fun _ => ⟨rfl, rfl⟩⟩, ⟨_, rfl, fun _ => ⟨rfl, rfl⟩⟩, ⟨_, rfl, fun _ => ⟨rfl, rfl⟩⟩,
      ⟨_, rfl, fun _ => ⟨rfl, rfl⟩⟩, ⟨_, rfl, fun _ => ⟨rfl, rfl⟩⟩, ⟨_, rfl, fun _ => ⟨rfl, rfl⟩⟩, by simp⟩
  obtain ⟨c, hc, hs⟩ := hcons s h
  have hlongest := longest_symbol (hs after).1 (hs after).2
  rw [hc] at hlongest ⊢
  exact hlongest

/-! Cutting. -/

theorem Longest.cuts (h : Longest (l ++ after) l lexeme) (offset : Nat) :
    Cuts offset (l ++ after) [⟨offset, lexeme⟩] (offset + utf8Length l) after :=
  @Cuts.cons offset _ [] l after after lexeme [] (by simp) h .nil

theorem Cuts.append {middle : Nat} (h : Cuts offset text ts middle text') (h' : Cuts middle text' us last after) :
    Cuts offset text (ts ++ us) last after := by
  induction h with
  | nil => exact h'
  | cons hb hl _ ih => exact .cons hb hl (ih h')

theorem Cuts.blank (h : Cuts (offset + 1) text ts last after) (hne : ts ≠ []) :
    Cuts offset (' ' :: text) ts last after := by
  cases h with
  | nil => exact absurd rfl hne
  | @cons _ _ blanks l after rest lexeme tokens hb hl h =>
    have hb' : ∀ c ∈ ' ' :: blanks, isBlank c = true := List.forall_mem_cons.mpr ⟨by decide, hb⟩
    have hoffset : offset + 1 + utf8Length blanks = offset + utf8Length (' ' :: blanks) := by
      rw [utf8Length, Nat.add_assoc]
      rfl
    rw [hoffset] at h ⊢
    exact .cons hb' hl h

theorem Spells.ne_nil (h : Spells k e ts) : ts ≠ [] := by
  cases h <;> simp

/-! Texts. -/

/-- The text spells a tree of level `k` with the value. -/
def Says (k : Nat) (text : List Char) (v : Value) : Prop :=
  ∀ offset after, Apart after → ∃ e ts last,
    Spells k e ts ∧ Cuts offset (text ++ after) ts last after ∧ e.meaning noResults () = some (.value v)

theorem Says.mono (h : Says k text v) (hk : k' ≤ k) : Says k' text v := fun offset after ha => by
  obtain ⟨e, ts, last, hspells, hcuts, hmeaning⟩ := h offset after ha
  exact ⟨e, ts, last, hspells.mono hk, hcuts, hmeaning⟩

theorem Says.blank (h : Says k text v) : Says k (' ' :: text) v := fun offset after ha => by
  obtain ⟨e, ts, last, hspells, hcuts, hmeaning⟩ := h (offset + 1) after ha
  exact ⟨e, ts, last, hspells, hcuts.blank hspells.ne_nil, hmeaning⟩

theorem Says.evaluate (h : Says 0 text v) : evaluate (String.ofList text) = .ok v := by
  obtain ⟨e, ts, last, hspells, hcuts, hmeaning⟩ := h 0 [] apart_nil
  rw [List.append_nil, ← String.toList_ofList (l := text)] at hcuts
  exact evaluate_iff.mpr ⟨ts, e, hcuts.tokenize (by simp), hspells, hmeaning⟩

theorem says_number (h : Numeral l) (hx : readNumber? l = some x) : Says k l (.scalar x) :=
  fun offset after ha => by
    refine ⟨_, _, _, .number (String.ofList l) none offset 0, (longest_numeral h ha.number).cuts offset, ?_⟩
    rw [Expr.meaning, String.toList_ofList, hx]
    rfl

theorem Suffix.word (suffix : Suffix) : Word suffix.symbol.toList := by
  cases suffix with
  | length u => cases u <;> exact word_of_all (by decide) (by decide)
  | degrees | radians => exact word_of_all (by decide) (by decide)

theorem says_suffixed (h : Numeral l) (hx : readNumber? l = some x) {suffix : Suffix}
    (hv : (Operation.convert suffix).value? [.scalar x] = some v) : Says k (l ++ suffix.symbol.toList) v :=
  fun offset after ha => by
    have hstop : ∀ c ∈ (suffix.symbol.toList ++ after).head?, c.isDigit = false ∧ c ≠ '.' := by
      have hhead := suffix.word.head
      obtain ⟨c, rest, hcons, -⟩ := suffix.word
      rw [hcons] at hhead ⊢
      exact hhead
    have hcut := ((longest_numeral h hstop).cuts offset).append ((longest_word suffix.word ha).cuts _)
    rw [String.ofList_toList, ← List.append_assoc] at hcut
    refine ⟨_, _, _, .number (String.ofList l) (some suffix) offset (offset + utf8Length l), hcut, ?_⟩
    rw [Expr.meaning, String.toList_ofList, hx]
    exact congrArg (Option.bind · _) hv

theorem says_text (h : Contents raw contents) : Says k ('"' :: (raw ++ ['"'])) (.text (String.ofList contents)) :=
  fun offset after _ => by
    have hlongest : Longest ('"' :: (raw ++ ['"']) ++ after) ('"' :: (raw ++ ['"']))
        (.text (String.ofList contents)) := by
      simpa using longest_text h
    exact ⟨_, _, _, .text (String.ofList contents) offset, hlongest.cuts offset, rfl⟩

theorem says_bool (b : Bool) : Says k (if b then "true" else "false").toList (.bool b) :=
  fun offset after ha => by
    have hword : Word (if b then "true" else "false").toList := by
      cases b <;> exact word_of_all (by decide) (by decide)
    refine ⟨_, _, _, .name _ offset, (longest_word hword ha).cuts offset, ?_⟩
    cases b <;> rfl

theorem Says.neg (h : Says 7 text v) (hw : (Operation.unary .neg).value? [v] = some w) :
    Says 7 ('-' :: text) w := fun offset after ha => by
  obtain ⟨e, ts, last, hspells, hcuts, hmeaning⟩ := h (offset + 1) after ha
  have hmark := longest_lone (s := .binary .sub) (by simp [Symbol.lone]) (text ++ after)
  refine ⟨_, _, _, .unary .neg offset (le_refl 7) hspells, (hmark.cuts offset).append hcuts, ?_⟩
  rw [Expr.meaning, hmeaning]
  exact congrArg (Option.bind · _) hw

/-- Factors and divisors are set apart by blanks. -/
theorem Says.binary {op : BinaryOp} (hop : Symbol.binary op ∈ Symbol.lone) (h : Says op.level text v)
    (h' : Says (op.level + 1) text' w) {r : Value} (hr : (Operation.binary op).value? [v, w] = some r) :
    Says op.level (text ++ ' ' :: (op.symbol.toList ++ ' ' :: text')) r := fun offset after ha => by
  obtain ⟨e, ts, last, hspells, hcuts, hmeaning⟩ :=
    h offset (' ' :: (op.symbol.toList ++ (' ' :: text' ++ after))) (apart_cons (by decide))
  have hmark := longest_lone hop (' ' :: text' ++ after)
  obtain ⟨e', ts', last', hspells', hcuts', hmeaning'⟩ :=
    h'.blank (last + 1 + utf8Length op.symbol.toList) after ha
  have hcut := hcuts.append (((hmark.cuts _).blank (List.cons_ne_nil _ _)).append hcuts')
  rw [List.append_assoc, List.cons_append, List.append_assoc]
  refine ⟨_, _, _, .binary op (last + 1) (le_refl _) hspells hspells', hcut, ?_⟩
  rw [Expr.meaning, hmeaning, hmeaning']
  exact congrArg (Option.bind · _) hr

/-! Calls. -/

/-- The text spells arguments with the values. -/
def SaysAll (text : List Char) (values : List Value) : Prop :=
  ∀ offset after, Apart after → ∃ es ts last,
    SpellsAll es ts ∧ Cuts offset (text ++ after) ts last after ∧ Expr.meanings noResults () es = some values

theorem Says.single (h : Says 0 text v) : SaysAll text [v] := fun offset after ha => by
  obtain ⟨e, ts, last, hspells, hcuts, hmeaning⟩ := h offset after ha
  refine ⟨_, _, _, .last hspells, hcuts, ?_⟩
  rw [Expr.meanings, hmeaning]
  rfl

theorem Says.more {values : List Value} (h : Says 0 text v) (h' : SaysAll text' (w :: values)) :
    SaysAll (text ++ ',' :: ' ' :: text') (v :: w :: values) := fun offset after ha => by
  obtain ⟨e, ts, middle, hspells, hcuts, hmeaning⟩ :=
    h offset (',' :: ' ' :: text' ++ after) (apart_cons (by decide))
  have hmark := longest_lone (s := .comma) (by simp [Symbol.lone]) (' ' :: text' ++ after)
  obtain ⟨es, us, last, hspells', hcuts', hmeanings⟩ := h' (middle + 1 + 1) after ha
  obtain ⟨e', es, rfl⟩ : ∃ e' es', es = e' :: es' := by
    cases es with
    | nil => cases hmeanings
    | cons e' es => exact ⟨e', es, rfl⟩
  have hne : us ≠ [] := by
    cases hspells' with
    | last h => exact h.ne_nil
    | more => simp
  have hcut := hcuts.append ((hmark.cuts middle).append (hcuts'.blank hne))
  rw [List.append_assoc]
  refine ⟨_, _, _, .more middle hspells hspells', hcut, ?_⟩
  rw [Expr.meanings, hmeaning, hmeanings]
  rfl

theorem Builtin.word (f : Builtin) : Word f.name.toList := by
  cases f <;> exact word_of_all (by decide) (by decide)

theorem SaysAll.call {values : List Value} (h : SaysAll text values) (f : Builtin)
    (hv : (Operation.builtin f).value? values = some v) :
    Says k (f.name.toList ++ '(' :: (text ++ [')'])) v := fun offset after ha => by
  have hname : Longest (f.name.toList ++ '(' :: (text ++ ')' :: after)) _ _ :=
    longest_word f.word (apart_cons (by decide))
  have hopening := longest_lone (s := .opening) (by simp [Symbol.lone]) (text ++ ')' :: after)
  have hclosing := longest_lone (s := .closing) (by simp [Symbol.lone]) after
  obtain ⟨es, ts, last, hspells, hcuts, hmeanings⟩ :=
    h (offset + utf8Length f.name.toList + 1) (')' :: after) (apart_cons (by decide))
  have hcut := (hname.cuts offset).append ((hopening.cuts _).append (hcuts.append (hclosing.cuts last)))
  rw [String.ofList_toList] at hcut
  rw [List.append_assoc, List.cons_append, List.append_assoc]
  refine ⟨_, _, _, .call f.name offset _ last hspells, hcut, ?_⟩
  rw [Expr.meaning, f.ofName?_name, hmeanings]
  exact congrArg (Option.bind · _) hv

end FormulaGraph
