import FormulaGraph.Proofs.Lexing
import FormulaGraph.Proofs.Meaning
import FormulaGraph.Proofs.Pointing

/-! Texts put one behind the other with a space between them. No lexeme but a string goes across a space, and a string
that has been closed is over, so that each text is read as if it stood alone. -/

namespace FormulaGraph

variable {c : Char} {l after rest text more : List Char} {lexeme : Lexeme} {offset last : Nat} {tokens : List Token}

/-! The first text. -/

theorem Spelled.eq_quote_of_space (h : Spelled l lexeme) (hc : ' ' ∈ l) : l.head? = some '"' := by
  obtain ⟨first, word, rfl, -⟩ := h.exists_cons
  rcases h.kind with ⟨hfirst, hall, -⟩ | ⟨hnumeral, -⟩ | ⟨rfl, -⟩ | ⟨-, s, hs, -⟩
  · have hchar : isNameChar ' ' = true := by
      rcases List.mem_cons.mp hc with rfl | hc
      · exact isNameChar_of_isNameStart hfirst
      · exact hall _ hc
    exact absurd hchar (by decide)
  · exact absurd (hnumeral.chars _ hc) (by decide)
  · rfl
  · exact absurd (Symbol.isMark_of_mem (hs ▸ hc)) (by decide)

/-- Two strings at the start of one text are the same. -/
theorem Spelled.eq_of_quote {l' : List Char} {lexeme' : Lexeme} (h : Spelled l lexeme) (h' : Spelled l' lexeme')
    (hquote : l.head? = some '"') (hquote' : l'.head? = some '"') (hl : l <+: text) (hl' : l' <+: text) : l = l' := by
  obtain ⟨c, word, rfl, -⟩ := h.exists_cons
  obtain ⟨c', word', rfl, -⟩ := h'.exists_cons
  obtain rfl : c = '"' := by simpa using hquote
  obtain rfl : c' = '"' := by simpa using hquote'
  have hstring : ∀ {word : List Char} {lexeme : Lexeme}, Spelled ('"' :: word) lexeme →
      ∃ raw contents, Contents raw contents ∧ word = raw ++ ['"'] := by
    intro word lexeme h
    rcases h.kind with ⟨hname, -⟩ | ⟨hnumeral, -⟩ | ⟨-, raw, contents, hraw, hword, -⟩ | ⟨hmark, -⟩
    · exact absurd hname (by decide)
    · exact absurd rfl hnumeral.ne_quote
    · exact ⟨raw, contents, hraw, hword⟩
    · exact absurd hmark (by decide)
  obtain ⟨raw, contents, hraw, rfl⟩ := hstring h
  obtain ⟨raw', contents', hraw', rfl⟩ := hstring h'
  obtain ⟨after, rfl⟩ := hl
  obtain ⟨after', he⟩ := hl'
  simp only [List.cons_append, List.append_assoc, List.nil_append, List.cons.injEq, true_and] at he
  rw [(hraw'.unique hraw he).1]

/-- What is longest stays longest when the text goes on behind a space. -/
theorem Longest.separated (h : Longest (l ++ after) l lexeme) (more : List Char) :
    Longest (l ++ (after ++ ' ' :: more)) l lexeme where
  spelled := h.spelled
  starts := List.prefix_append l _
  length_le {l' lexeme'} h' hl' := by
    by_contra hlonger
    have hshort : (l ++ after).length < l'.length := by
      by_contra hle
      have hwithin : l' <+: l ++ after := by
        refine List.prefix_of_prefix_length_le hl' ?_ (Nat.le_of_not_lt hle)
        rw [← List.append_assoc]
        exact List.prefix_append _ _
      exact hlonger (h.length_le h' hwithin)
    have hspace : l ++ after ++ [' '] <+: l' := by
      have hmore : l ++ after ++ [' '] <+: l ++ (after ++ ' ' :: more) := ⟨more, by simp⟩
      refine List.prefix_of_prefix_length_le hmore hl' ?_
      simp only [List.length_append, List.length_cons, List.length_nil] at hshort ⊢
      omega
    have hquote := h'.eq_quote_of_space (hspace.subset (by simp))
    have hquote' : l.head? = some '"' := by
      obtain ⟨first, word, rfl, -⟩ := h.spelled.exists_cons
      obtain ⟨_, rfl⟩ := hspace
      simpa using hquote
    rw [h.spelled.eq_of_quote h' hquote' hquote (List.prefix_append l _) hl'] at hlonger
    exact hlonger (Nat.le_refl _)

theorem Cuts.separated (h : Cuts offset text tokens last rest) (more : List Char) :
    Cuts offset (text ++ ' ' :: more) tokens last (rest ++ ' ' :: more) := by
  induction h with
  | nil => exact .nil
  | cons hb hl h ih =>
    simp only [List.append_assoc]
    exact .cons hb (hl.separated more) ih

/-! The second text. Where it begins shows in the places of what is read alone. -/

def Token.shift (k : Nat) (token : Token) : Token := { token with offset := token.offset + k }

def FormulaError.shift (k : Nat) (e : FormulaError) : FormulaError := { e with offset := e.offset + k }

/-- The same outcome, `k` bytes further on. -/
def shifted {α β : Type} (k : Nat) (f : α → β) : Checked α → Checked β
  | .ok a => .ok (f a)
  | .error e => .error (e.shift k)

def Scan.shift {α : Type} (k : Nat) (f : α → α) (s : Scan α) : Scan α := ⟨f s.read, s.offset + k, s.rest⟩

theorem takeString_shift (k opened offset : Nat) (text : List Char) :
    takeString (opened + k) (offset + k) text = shifted k (Scan.shift k id) (takeString opened offset text) := by
  fun_induction takeString opened offset text with
  | case1 => rfl
  | case2 => rfl
  | case3 => simp [takeString, shifted, Scan.shift, Nat.add_right_comm]
  | case4 offset c rest e he ih =>
    rw [takeString_escape (mem_escapes_iff.mpr he), Nat.add_right_comm, ih]
    cases takeString opened (offset + 2) rest <;> rfl
  | case5 offset c rest he =>
    rw [takeString, he]
    rfl
  | case6 offset c rest hlone hquote hescape ih =>
    have hb : c ≠ '\\' := by
      rintro rfl
      cases rest with
      | nil => exact hlone rfl rfl
      | cons c' rest' => exact hescape c' rest' rfl rfl
    rw [takeString_cons hquote hb, Nat.add_right_comm, ih]
    cases takeString opened (offset + c.utf8Size) rest <;> rfl

theorem takeToken_shift (k offset : Nat) (c : Char) (text : List Char) :
    takeToken (offset + k) c text = shifted k (Scan.shift k (Token.shift k)) (takeToken offset c text) := by
  by_cases hq : c = '"'
  · subst hq
    rw [takeToken_quote, takeToken_quote, Nat.add_right_comm, takeString_shift]
    cases takeString offset (offset + 1) text <;> rfl
  · have hbeq : (c == '"') = false := beq_false_of_ne hq
    simp only [takeToken, hbeq, Bool.false_eq_true, if_false]
    repeat' split
    all_goals simp [shifted, Scan.shift, Token.shift, FormulaError.shift, failLex, Nat.add_right_comm]

theorem tokensFrom_shift (k offset : Nat) (text : List Char) :
    tokensFrom (offset + k) text = shifted k (List.map (Token.shift k)) (tokensFrom offset text) := by
  induction hn : text.length using Nat.strong_induction_on generalizing offset text with
  | _ n ih =>
  subst hn
  rcases blank_or_begins text with hall | ⟨blanks, c, rest, rfl, hb, hc⟩
  · rw [tokensFrom_blank hall, tokensFrom_blank hall]
    rfl
  · rw [tokensFrom_append hb hc, tokensFrom_append hb hc, Nat.add_right_comm, takeToken_shift]
    cases hs : takeToken (offset + utf8Length blanks) c rest with
    | error e => rfl
    | ok s =>
      have hlt : s.rest.length < (blanks ++ c :: rest).length := by
        have hscan := length_takeToken_lt hs
        rw [List.length_append]
        omega
      simp only [shifted, Scan.shift, ih _ hlt _ _ rfl]
      cases tokensFrom s.offset s.rest <;> rfl

theorem tokensFrom_blanks {blanks : List Char} (hb : ∀ c ∈ blanks, isBlank c = true) (offset : Nat) (text : List Char) :
    tokensFrom offset (blanks ++ text) = tokensFrom (offset + utf8Length blanks) text := by
  rcases blank_or_begins text with hall | ⟨first, c, rest, rfl, hfirst, hc⟩
  · rw [tokensFrom_blank hall, tokensFrom_blank (by simpa [or_imp, forall_and] using ⟨hb, hall⟩)]
  · have hboth : ∀ c ∈ blanks ++ first, isBlank c = true := by
      simpa [or_imp, forall_and] using ⟨hb, hfirst⟩
    rw [← List.append_assoc, tokensFrom_append hboth hc, tokensFrom_append hfirst hc, utf8Length_append, Nat.add_assoc]

/-- A text whose tokens can be read, a space and another text have the tokens of the first, and behind them those of
the second, or its failure, with their places counted from the start. -/
theorem tokenize_separated {a : String} (h : tokenize a = .ok tokens) (b : String) :
    tokenize (a ++ " " ++ b) = match tokenize b with
      | .ok more => .ok (tokens ++ more.map fun token => { token with offset := token.offset + (a.utf8ByteSize + 1) })
      | .error e => .error { e with offset := e.offset + (a.utf8ByteSize + 1) } := by
  obtain ⟨last, rest, hcuts, hrest⟩ := tokenize_ok_iff.mp h
  obtain ⟨before, htext, hlast⟩ := hcuts.reaches
  have hblanks : ∀ c ∈ rest ++ [' '], isBlank c = true := by
    intro c hc
    rcases List.mem_append.mp hc with hc | hc
    · exact hrest c hc
    · rw [List.mem_singleton.mp hc]
      decide
  have hlist : (a ++ " " ++ b).toList = a.toList ++ ' ' :: b.toList := by simp
  have hsplit : rest ++ ' ' :: b.toList = rest ++ [' '] ++ b.toList := by simp
  have hplace : last + utf8Length (rest ++ [' ']) = 0 + (a.utf8ByteSize + 1) := by
    rw [utf8ByteSize_eq, htext, hlast, utf8Length_append, utf8Length_append]
    simp only [utf8Length, show Char.utf8Size ' ' = 1 by decide]
    omega
  rw [tokenize, hlist, (hcuts.separated b.toList).tokensFrom, hsplit, tokensFrom_blanks hblanks, hplace,
    tokensFrom_shift, tokenize]
  cases tokensFrom 0 b.toList <;> rfl

theorem tokenize_separated_equals :
    tokenize "Größe == \"à \"" = .ok [⟨0, .name "Größe"⟩, ⟨8, .symbol (.binary .eq)⟩, ⟨11, .text "à "⟩] ∧
      tokenize "= 1" = .error { cause := .lex (.unknownOperator "="), offset := 0 } ∧
      tokenize ("Größe == \"à \"" ++ " " ++ "= 1") =
        .error { cause := .lex (.unknownOperator "="), offset := 17 } := by
  have hfirst : tokenize "Größe == \"à \"" =
      .ok [⟨0, .name "Größe"⟩, ⟨8, .symbol (.binary .eq)⟩, ⟨11, .text "à "⟩] :=
    toOption_eq_some.mp (by decide +kernel)
  have hblanks : ∀ c ∈ ([] : List Char), isBlank c = true := by simp
  have hsecond : tokenize "= 1" = .error { cause := .lex (.unknownOperator "="), offset := 0 } :=
    tokensFrom_append hblanks (by decide)
  refine ⟨hfirst, hsecond, ?_⟩
  rw [tokenize_separated hfirst "= 1", hsecond]
  rfl

end FormulaGraph
