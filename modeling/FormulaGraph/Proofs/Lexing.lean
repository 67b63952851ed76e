import FormulaGraph.Proofs.Lexemes

/-! Reading a text into tokens is cutting it into longest lexemes with blanks between them. Where that
ends before the text does, no lexeme fits, and the failure says so. -/

namespace FormulaGraph

/-- From byte `offset` on, a text is cut into the lexemes of tokens, each the longest at its place and with
blanks in front of it. The text is left from byte `last` on. -/
inductive Cuts : Nat → List Char → List Token → Nat → List Char → Prop
  | nil {offset : Nat} {rest : List Char} : Cuts offset rest [] offset rest
  | cons {offset last : Nat} {blanks l after rest : List Char} {lexeme : Lexeme} {tokens : List Token}
    (hb : ∀ c ∈ blanks, isBlank c = true) (hl : Longest (l ++ after) l lexeme)
    (h : Cuts (offset + utf8Length blanks + utf8Length l) after tokens last rest) :
    Cuts offset (blanks ++ (l ++ after)) (⟨offset + utf8Length blanks, lexeme⟩ :: tokens) last rest

/-- No lexeme stands at the start of the text. -/
def NoneFits (text : List Char) : Prop := ∀ l lexeme, Spelled l lexeme → ¬ l <+: text

/-- The place and the reason to blame when no lexeme fits at byte `start` of a formula. -/
inductive Misfit (start : Nat) : List Char → Nat → LexFault → Prop
  | unterminated {raw contents : List Char} (h : Contents raw contents) :
    Misfit start ('"' :: raw) start .unterminatedString
  | cutEscape {raw contents : List Char} (h : Contents raw contents) :
    Misfit start ('"' :: (raw ++ ['\\'])) start .unterminatedString
  | unknownEscape {c : Char} {raw contents rest : List Char} (h : Contents raw contents)
    (hc : ∀ e, (c, e) ∉ escapes) :
    Misfit start ('"' :: (raw ++ '\\' :: c :: rest)) (start + utf8Length ('"' :: raw)) (.unknownEscape c)
  | unknownOperator {c : Char} {text : List Char} (hc : Symbol.isMark c = true) :
    Misfit start (c :: text) start
      (.unknownOperator (String.ofList ((c :: text).takeWhile Symbol.isMark)))
  | unexpected {c : Char} {text : List Char} (hq : c ≠ '"') (hc : Symbol.isMark c = false) :
    Misfit start (c :: text) start (.unexpectedCharacter c)

variable {c : Char} {l text rest raw contents : List Char} {lexeme : Lexeme} {opened offset : Nat}

/-! Strings. -/

theorem takeString_cons (hq : c ≠ '"') (hb : c ≠ '\\') :
    takeString opened offset (c :: text) =
      (takeString opened (offset + c.utf8Size) text).map (Scan.map (c :: ·)) := by
  rw [takeString]
  · cases takeString opened (offset + c.utf8Size) text <;> rfl
  all_goals simp_all

theorem takeString_escape {e : Char} (he : (c, e) ∈ escapes) :
    takeString opened offset ('\\' :: c :: text) =
      (takeString opened (offset + 2) text).map (Scan.map (e :: ·)) := by
  rw [takeString, mem_escapes_iff.mp he]
  cases takeString opened (offset + 2) text <;> rfl

theorem utf8Length_escape {e : Char} (he : (c, e) ∈ escapes) (raw : List Char) :
    utf8Length ('\\' :: c :: raw) = 2 + utf8Length raw := by
  have hone : ∀ escape ∈ escapes, Char.utf8Size '\\' = 1 ∧ escape.1.utf8Size = 1 := by decide
  obtain ⟨hb, hc⟩ := hone _ he
  simp only [utf8Length, hb, hc]
  omega

theorem Contents.takeString (h : Contents raw contents) (rest : List Char) :
    takeString opened offset (raw ++ rest) =
      (takeString opened (offset + utf8Length raw) rest).map (Scan.map (contents ++ ·)) := by
  induction h generalizing offset with
  | nil =>
    change takeString opened offset rest = (takeString opened offset rest).map (Scan.map id)
    cases FormulaGraph.takeString opened offset rest <;> rfl
  | plain hq hb _ ih =>
    rw [List.cons_append, takeString_cons hq hb, ih, utf8Length, Nat.add_assoc]
    cases FormulaGraph.takeString opened _ rest <;> rfl
  | escape he _ ih =>
    rw [List.cons_append, List.cons_append, takeString_escape he, ih, utf8Length_escape he, Nat.add_assoc]
    cases FormulaGraph.takeString opened _ rest <;> rfl

/-- How far a text can be read as the contents of a string. -/
theorem exists_contents (text : List Char) :
    ∃ raw contents rest, Contents raw contents ∧ text = raw ++ rest ∧
      (rest = [] ∨ rest = ['\\'] ∨ (∃ after, rest = '"' :: after) ∨
        ∃ c after, rest = '\\' :: c :: after ∧ ∀ e, (c, e) ∉ escapes) := by
  fun_induction FormulaGraph.takeString 0 0 text with
  | case1 => exact ⟨[], [], [], .nil, rfl, .inl rfl⟩
  | case2 => exact ⟨[], [], ['\\'], .nil, rfl, .inr (.inl rfl)⟩
  | case3 _ after => exact ⟨[], [], _, .nil, rfl, .inr (.inr (.inl ⟨after, rfl⟩))⟩
  | case4 _ c _ e he ih =>
    obtain ⟨raw, contents, rest, h, rfl, hrest⟩ := ih
    exact ⟨'\\' :: c :: raw, e :: contents, rest, .escape (mem_escapes_iff.mpr he) h, rfl, hrest⟩
  | case5 _ c after he =>
    refine ⟨[], [], _, .nil, rfl, .inr (.inr (.inr ⟨c, after, rfl, fun e hmem => ?_⟩))⟩
    rw [mem_escapes_iff.mp hmem] at he
    cases he
  | case6 _ c after hlone hquote hescape ih =>
    obtain ⟨raw, contents, rest, h, rfl, hrest⟩ := ih
    have hb : c ≠ '\\' := by
      rintro rfl
      cases hr : raw ++ rest with
      | nil => exact hlone rfl hr
      | cons c' after' => exact hescape c' after' rfl hr
    exact ⟨c :: raw, c :: contents, rest, .plain hquote hb h, rfl, hrest⟩

/-! One token. -/

theorem takeToken_quote (text : List Char) :
    takeToken offset '"' text = (takeString offset (offset + 1) text).map
      (Scan.map fun contents => ⟨offset, .text (String.ofList contents)⟩) := by
  have hname : isNameStart '"' = false := by decide
  have hnumber : startsNumber '"' text = false := rfl
  simp only [takeToken, hname, hnumber, Bool.false_eq_true, if_false, beq_self_eq_true, if_true]
  cases takeString offset (offset + 1) text <;> rfl

/-- With no lexeme there, the failure is the one of the misfit. -/
theorem Misfit.takeToken {start place : Nat} {fault : LexFault} (h : Misfit start (c :: text) place fault)
    (hno : NoneFits (c :: text)) :
    takeToken start c text = failLex place fault := by
  cases h with
  | unterminated h =>
    have hs : takeString start (start + 1) (text ++ []) = _ := h.takeString []
    rw [List.append_nil] at hs
    rw [takeToken_quote, hs]
    rfl
  | cutEscape h =>
    rw [takeToken_quote, h.takeString]
    rfl
  | @unknownEscape e raw contents rest h hc =>
    have hnone : escaped? e = none := Option.eq_none_iff_forall_ne_some.mpr fun x hx =>
      hc x (mem_escapes_iff.mpr hx)
    have hplace : start + utf8Length ('"' :: raw) = start + 1 + utf8Length raw := (Nat.add_assoc _ _ _).symm
    rw [takeToken_quote, h.takeString, takeString, hnone, hplace]
    rfl
  | unknownOperator hc =>
    have hname := not_isNameStart_of_isMark hc
    have hnumber : startsNumber c text = false := Bool.eq_false_iff.mpr fun hn =>
      hno _ _ (longest_number hn).spelled (longest_number hn).starts
    have hq : (c == '"') = false := beq_false_of_ne fun he => by
      rw [he] at hc
      cases hc
    have hnone : Symbol.leading? (c :: text) = none := by
      cases hs : Symbol.leading? (c :: text) with
      | none => rfl
      | some s => exact absurd (Symbol.starts_of_leading? hs) (hno _ _ (.symbol s))
    simp only [FormulaGraph.takeToken, hname, hnumber, hq, hc, hnone, Bool.false_eq_true, if_false, if_true]
  | unexpected hq hc =>
    have hname : isNameStart c = false := Bool.eq_false_iff.mpr fun hn =>
      hno _ _ (longest_name hn).spelled (longest_name hn).starts
    have hnumber : startsNumber c text = false := Bool.eq_false_iff.mpr fun hn =>
      hno _ _ (longest_number hn).spelled (longest_number hn).starts
    have hq : (c == '"') = false := beq_false_of_ne hq
    simp only [FormulaGraph.takeToken, hname, hnumber, hq, hc, Bool.false_eq_true, if_false]

/-- The token of the longest lexeme, and what is left behind it. -/
def scanOf (offset : Nat) (l : List Char) (lexeme : Lexeme) (after : List Char) : Scan Token :=
  ⟨⟨offset, lexeme⟩, offset + utf8Length l, after⟩

theorem longest_text (h : Contents raw contents) :
    Longest ('"' :: (raw ++ '"' :: rest)) ('"' :: (raw ++ ['"'])) (.text (String.ofList contents)) where
  spelled := .text h
  starts := ⟨rest, by simp⟩
  length_le hl' hl := by
    obtain ⟨rest', rfl, hrest⟩ := hl'.exists_rest hl
    rcases hl'.kind with ⟨hc, -⟩ | ⟨hn, -⟩ | ⟨-, raw', contents', h', rfl, -⟩ | ⟨hm, -⟩
    · cases hc
    · exact absurd rfl hn.ne_quote
    · obtain ⟨after, hafter⟩ := hrest
      rw [List.append_assoc] at hafter
      rw [(h'.unique h hafter).1]
    · cases hm

theorem add_utf8Length_quoted (offset : Nat) (raw : List Char) :
    offset + utf8Length ('"' :: (raw ++ ['"'])) = offset + 1 + utf8Length raw + 1 := by
  rw [utf8Length, utf8Length_append, ← Nat.add_assoc, ← Nat.add_assoc]
  rfl

theorem Contents.takeString_closed (h : Contents raw contents) (opened offset : Nat) (after : List Char) :
    FormulaGraph.takeString opened offset (raw ++ '"' :: after) =
      .ok ⟨contents, offset + utf8Length raw + 1, after⟩ := by
  rw [h.takeString]
  change Except.ok (⟨contents ++ [], _, _⟩ : Scan (List Char)) = _
  rw [List.append_nil]

/-- A quote that does not open a string is to blame, or something behind it is. -/
theorem string_or_misfit (start : Nat) (text : List Char) :
    (∃ raw contents after, Contents raw contents ∧ text = raw ++ '"' :: after) ∨
      (∃ place fault, Misfit start ('"' :: text) place fault) ∧ ∃ e, takeString start (start + 1) text = .error e := by
  obtain ⟨raw, contents, rest, h, rfl, rfl | rfl | ⟨after, rfl⟩ | ⟨c, after, rfl, hc⟩⟩ := exists_contents text
  · have hall : Contents (raw ++ []) contents := by rwa [List.append_nil]
    exact .inr ⟨⟨_, _, .unterminated hall⟩, _, h.takeString []⟩
  · exact .inr ⟨⟨_, _, .cutEscape h⟩, _, h.takeString ['\\']⟩
  · exact .inl ⟨raw, contents, after, h, rfl⟩
  · refine .inr ⟨⟨_, _, .unknownEscape h hc⟩, ?_⟩
    have hnone : escaped? c = none := Option.eq_none_iff_forall_ne_some.mpr fun e he =>
      hc e (mem_escapes_iff.mpr he)
    rw [h.takeString, takeString, hnone]
    exact ⟨_, rfl⟩

/-- What else can stand where there is no name and no number. -/
theorem Spelled.quote_or_symbol (hname : isNameStart c = false) (hnumber : startsNumber c text = false)
    (h : Spelled l lexeme) (hl : l <+: c :: text) :
    (c = '"' ∧ ∃ raw contents after, Contents raw contents ∧ text = raw ++ '"' :: after) ∨
      Symbol.isMark c = true ∧ ∃ s : Symbol, s.spelling.toList <+: c :: text := by
  obtain ⟨rest, rfl, hrest⟩ := h.exists_rest hl
  rcases h.kind with ⟨hc, -⟩ | ⟨hn, -⟩ | ⟨rfl, raw, contents, hraw, rfl, -⟩ | ⟨hm, s, hs, -⟩
  · rw [hname] at hc
    cases hc
  · rw [startsNumber_of_numeral hn hl] at hnumber
    cases hnumber
  · obtain ⟨after, rfl⟩ := hrest
    exact .inl ⟨rfl, raw, contents, after, hraw, by simp⟩
  · exact .inr ⟨hm, s, hs ▸ hl⟩

theorem Symbol.exists_leading? {s : Symbol} (h : s.spelling.toList <+: text) : ∃ s', leading? text = some s' :=
  Option.isSome_iff_exists.mp (List.find?_isSome.mpr ⟨s, s.mem_all, List.isPrefixOf_iff_prefix.mpr h⟩)

/-- Either the longest lexeme is taken, or none fits. -/
theorem takeToken_cases (offset : Nat) (c : Char) (text : List Char) :
    (∃ l lexeme after, Longest (c :: text) l lexeme ∧ c :: text = l ++ after ∧
        takeToken offset c text = .ok (scanOf offset l lexeme after)) ∨
      ∃ place fault, NoneFits (c :: text) ∧ Misfit offset (c :: text) place fault := by
  cases hname : isNameStart c with
  | true =>
    refine .inl ⟨_, _, text.dropWhile isNameChar, longest_name hname, ?_, ?_⟩
    · rw [List.cons_append, List.takeWhile_append_dropWhile]
    · rw [takeToken, if_pos hname]
      rfl
  | false =>
  cases hnumber : startsNumber c text with
  | true =>
    refine .inl ⟨_, _, _, longest_number hnumber, (takeNumber_append _).symm, ?_⟩
    rw [takeToken, hname, hnumber]
    rfl
  | false =>
  by_cases hq : c = '"'
  · subst hq
    rcases string_or_misfit offset text with ⟨raw, contents, after, h, rfl⟩ | ⟨⟨place, fault, hmis⟩, e, he⟩
    · refine .inl ⟨_, _, after, longest_text h, by simp, ?_⟩
      rw [takeToken_quote, h.takeString_closed, scanOf, add_utf8Length_quoted]
      rfl
    · refine .inr ⟨place, fault, fun l lexeme h hl => ?_, hmis⟩
      rcases h.quote_or_symbol hname hnumber hl with ⟨-, raw, contents, after, hraw, rfl⟩ | ⟨hm, -⟩
      · rw [hraw.takeString_closed] at he
        cases he
      · cases hm
  cases hmark : Symbol.isMark c with
  | false =>
    refine .inr ⟨_, _, fun l lexeme h hl => ?_, .unexpected hq hmark⟩
    rcases h.quote_or_symbol hname hnumber hl with ⟨hc, -⟩ | ⟨hm, -⟩
    · exact hq hc
    · rw [hmark] at hm
      cases hm
  | true =>
    cases hs : Symbol.leading? (c :: text) with
    | none =>
      refine .inr ⟨_, _, fun l lexeme h hl => ?_, .unknownOperator hmark⟩
      rcases h.quote_or_symbol hname hnumber hl with ⟨hc, -⟩ | ⟨-, s, hstarts⟩
      · exact hq hc
      · obtain ⟨s', hs'⟩ := Symbol.exists_leading? hstarts
        rw [hs] at hs'
        cases hs'
    | some s =>
      have hlongest := longest_symbol hs hnumber
      obtain ⟨after, hafter⟩ := hlongest.starts
      refine .inl ⟨_, _, after, hlongest, hafter.symm, ?_⟩
      have hbeq : (c == '"') = false := beq_false_of_ne hq
      have hdrop : (c :: text).drop s.spelling.length = after := by
        rw [← hafter, ← String.length_toList, List.drop_left]
      simp only [takeToken, hname, hnumber, hbeq, hmark, hs, hdrop, Bool.false_eq_true, if_false, if_true]
      rw [← s.utf8Length_spelling]
      rfl

theorem takeToken_of_longest {after : List Char} (h : Longest (c :: text) l lexeme)
    (hl : c :: text = l ++ after) : takeToken offset c text = .ok (scanOf offset l lexeme after) := by
  rcases takeToken_cases offset c text with ⟨l', lexeme', after', h', hl', he⟩ | ⟨_, _, hno, -⟩
  · obtain ⟨rfl, rfl⟩ := h.unique h'
    rw [hl, List.append_cancel_left_eq] at hl'
    rw [he, hl']
  · exact absurd h.starts (hno _ _ h.spelled)

/-! The whole text. -/

theorem tokensFrom_blank (h : ∀ c ∈ text, isBlank c = true) : tokensFrom offset text = .ok [] := by
  rw [tokensFrom]
  split
  · rfl
  next hd => rw [List.dropWhile_eq_nil_iff.mpr h] at hd; cases hd

theorem tokensFrom_append {blanks : List Char} (hb : ∀ c ∈ blanks, isBlank c = true) (hc : isBlank c = false) :
    tokensFrom offset (blanks ++ c :: text) =
      match takeToken (offset + utf8Length blanks) c text with
      | .error e => .error e
      | .ok s => (tokensFrom s.offset s.rest).map (s.read :: ·) := by
  have htake : (blanks ++ c :: text).takeWhile isBlank = blanks := by
    simp [List.takeWhile_append_of_pos hb, hc]
  have hdrop : (blanks ++ c :: text).dropWhile isBlank = c :: text := by
    simp [List.dropWhile_append_of_pos hb, hc]
  rw [tokensFrom]
  split
  next hd => rw [hdrop] at hd; cases hd
  next c' rest hd =>
    rw [hdrop] at hd
    cases hd
    rw [htake]
    split
    next e he => rw [he]
    next s hs =>
      simp only [hs]
      cases tokensFrom s.offset s.rest <;> rfl

theorem Cuts.tokensFrom {last : Nat} {tokens : List Token} (h : Cuts offset text tokens last rest) :
    tokensFrom offset text = (tokensFrom last rest).map (tokens ++ ·) := by
  induction h with
  | @nil offset rest => cases FormulaGraph.tokensFrom offset rest <;> rfl
  | @cons offset last blanks l after rest lexeme tokens hb hl h ih =>
    obtain ⟨c, word, rfl, hc⟩ := hl.spelled.exists_cons
    rw [List.cons_append] at hl ⊢
    rw [tokensFrom_append hb hc, takeToken_of_longest hl rfl]
    simp only [scanOf, ih]
    cases FormulaGraph.tokensFrom last rest <;> rfl

theorem blank_or_begins (text : List Char) : (∀ c ∈ text, isBlank c = true) ∨
    ∃ blanks c after, text = blanks ++ c :: after ∧ (∀ c ∈ blanks, isBlank c = true) ∧ isBlank c = false := by
  have hsplit := List.takeWhile_append_dropWhile (p := isBlank) (l := text)
  have hblanks : ∀ c ∈ text.takeWhile isBlank, isBlank c = true := List.all_eq_true.mp List.all_takeWhile
  cases hd : text.dropWhile isBlank with
  | nil => exact .inl (List.dropWhile_eq_nil_iff.mp hd)
  | cons c after =>
    have hc : isBlank c = false := by simpa [hd] using List.head?_dropWhile_not isBlank text
    exact .inr ⟨_, c, after, by rw [← hd, hsplit], hblanks, hc⟩

/-- A text is cut up as far as lexemes fit. -/
theorem exists_cuts (offset : Nat) (text : List Char) :
    ∃ tokens last rest, Cuts offset text tokens last rest ∧
      ((∀ c ∈ rest, isBlank c = true) ∨
        ∃ blanks c after place fault, rest = blanks ++ c :: after ∧ (∀ c ∈ blanks, isBlank c = true) ∧
          isBlank c = false ∧ NoneFits (c :: after) ∧
          Misfit (last + utf8Length blanks) (c :: after) place fault) := by
  induction hn : text.length using Nat.strong_induction_on generalizing offset text with
  | _ n ih =>
  subst hn
  rcases blank_or_begins text with hall | ⟨blanks, c, after, rfl, hb, hc⟩
  · exact ⟨[], offset, text, .nil, .inl hall⟩
  · rcases takeToken_cases (offset + utf8Length blanks) c after with
      ⟨l, lexeme, left, hl, hcons, -⟩ | ⟨place, fault, hno, hmis⟩
    · have hlength : left.length < (blanks ++ c :: after).length := by
        obtain ⟨first, word, rfl, -⟩ := hl.spelled.exists_cons
        rw [hcons]
        simp only [List.length_append, List.length_cons]
        omega
      obtain ⟨tokens, last, rest, hcuts, hrest⟩ := ih _ hlength (offset + utf8Length blanks + utf8Length l) left rfl
      rw [hcons] at hl ⊢
      exact ⟨_, last, rest, Cuts.cons hb hl hcuts, hrest⟩
    · exact ⟨[], offset, _, .nil, .inr ⟨blanks, c, after, place, fault, rfl, hb, hc, hno, hmis⟩⟩

theorem Cuts.offset_le {last : Nat} {tokens : List Token} (h : Cuts offset text tokens last rest) :
    ∀ token ∈ tokens, offset ≤ token.offset := by
  induction h with
  | nil => simp
  | cons _ _ _ ih =>
    intro token hmem
    rcases List.mem_cons.mp hmem with rfl | hmem
    · exact Nat.le_add_right _ _
    · have := ih token hmem
      omega

theorem Cuts.pairwise {last : Nat} {tokens : List Token} (h : Cuts offset text tokens last rest) :
    tokens.Pairwise (·.offset < ·.offset) := by
  induction h with
  | nil => exact .nil
  | cons hb hl h ih =>
    refine List.pairwise_cons.mpr ⟨fun token hmem => ?_, ih⟩
    have hle := h.offset_le token hmem
    obtain ⟨c, word, rfl, -⟩ := hl.spelled.exists_cons
    have hpos := c.utf8Size_pos
    simp only [utf8Length] at hle ⊢
    omega

theorem Cuts.lexeme_at {last : Nat} {tokens : List Token} (h : Cuts offset text tokens last rest) :
    ∀ token ∈ tokens, ∃ before l after, text = before ++ (l ++ after) ∧
      token.offset = offset + utf8Length before ∧ Longest (l ++ after) l token.lexeme := by
  induction h with
  | nil => simp
  | @cons offset last blanks l after rest lexeme tokens hb hl h ih =>
    intro token hmem
    rcases List.mem_cons.mp hmem with rfl | hmem
    · exact ⟨blanks, l, after, rfl, rfl, hl⟩
    · obtain ⟨before, l', after', rfl, hoffset, hl'⟩ := ih token hmem
      refine ⟨blanks ++ (l ++ before), l', after', by simp, ?_, hl'⟩
      rw [hoffset, utf8Length_append, utf8Length_append]
      omega

theorem Cuts.reaches {last : Nat} {tokens : List Token} (h : Cuts offset text tokens last rest) :
    ∃ before, text = before ++ rest ∧ last = offset + utf8Length before := by
  induction h with
  | nil => exact ⟨[], rfl, rfl⟩
  | @cons offset last blanks l after rest lexeme tokens hb hl h ih =>
    obtain ⟨before, rfl, hlast⟩ := ih
    refine ⟨blanks ++ (l ++ before), by simp, ?_⟩
    rw [hlast, utf8Length_append, utf8Length_append]
    omega

theorem Misfit.place {start place : Nat} {fault : LexFault} (h : Misfit start text place fault) :
    ∃ before after, text = before ++ after ∧ place = start + utf8Length before := by
  cases h with
  | @unknownEscape c raw contents rest h hc => exact ⟨'"' :: raw, '\\' :: c :: rest, rfl, rfl⟩
  | unterminated | cutEscape | unknownOperator | unexpected => exact ⟨[], _, rfl, rfl⟩

theorem Cuts.tokenize {formula : String} {last : Nat} {tokens : List Token}
    (h : Cuts 0 formula.toList tokens last rest) (hrest : ∀ c ∈ rest, isBlank c = true) :
    tokenize formula = .ok tokens := by
  rw [FormulaGraph.tokenize, h.tokensFrom, tokensFrom_blank hrest]
  exact congrArg Except.ok (List.append_nil _)

theorem Cuts.tokenize_misfit {formula : String} {last place : Nat} {tokens : List Token} {blanks : List Char}
    {fault : LexFault} (h : Cuts 0 formula.toList tokens last (blanks ++ c :: rest))
    (hb : ∀ c ∈ blanks, isBlank c = true) (hc : isBlank c = false) (hno : NoneFits (c :: rest))
    (hmis : Misfit (last + utf8Length blanks) (c :: rest) place fault) :
    FormulaGraph.tokenize formula = failLex place fault := by
  rw [FormulaGraph.tokenize, h.tokensFrom, tokensFrom_append hb hc, hmis.takeToken hno]
  rfl

theorem tokenize_ok_iff {formula : String} {tokens : List Token} :
    tokenize formula = .ok tokens ↔
      ∃ last rest, Cuts 0 formula.toList tokens last rest ∧ ∀ c ∈ rest, isBlank c = true := by
  refine ⟨fun htokens => ?_, fun ⟨last, rest, h, hrest⟩ => h.tokenize hrest⟩
  obtain ⟨tokens', last, rest, h, hrest | ⟨blanks, c, after, place, fault, rfl, hb, hc, hno, hmis⟩⟩ :=
    exists_cuts 0 formula.toList
  · rw [h.tokenize hrest] at htokens
    cases htokens
    exact ⟨last, rest, h, hrest⟩
  · rw [h.tokenize_misfit hb hc hno hmis] at htokens
    cases htokens

theorem tokenize_error_iff {formula : String} {e : FormulaError} :
    tokenize formula = .error e ↔
      ∃ tokens last blanks c rest place fault, Cuts 0 formula.toList tokens last (blanks ++ c :: rest) ∧
        (∀ c ∈ blanks, isBlank c = true) ∧ isBlank c = false ∧ NoneFits (c :: rest) ∧
        Misfit (last + utf8Length blanks) (c :: rest) place fault ∧
        e = { cause := .lex fault, offset := place } := by
  constructor
  · intro he
    obtain ⟨tokens', last, rest, h, hrest | ⟨blanks, c, after, place, fault, rfl, hb, hc, hno, hmis⟩⟩ :=
      exists_cuts 0 formula.toList
    · rw [h.tokenize hrest] at he
      cases he
    · rw [h.tokenize_misfit hb hc hno hmis] at he
      cases he
      exact ⟨tokens', last, blanks, c, after, place, fault, h, hb, hc, hno, hmis, rfl⟩
  · rintro ⟨tokens, last, blanks, c, rest, place, fault, h, hb, hc, hno, hmis, rfl⟩
    exact h.tokenize_misfit hb hc hno hmis

/-- Tokens are read exactly when the text is cut into longest lexemes up to the blanks at its end. They have
the lexemes in order, each with the byte where it starts. Otherwise reading fails at the first place where no
lexeme fits, with the place and reason of the misfit. -/
theorem tokenize_cuts (formula : String) :
    (∀ tokens, tokenize formula = .ok tokens ↔
      ∃ last rest, Cuts 0 formula.toList tokens last rest ∧ ∀ c ∈ rest, isBlank c = true) ∧
    (∀ tokens, tokenize formula = .ok tokens → tokens.Pairwise (·.offset < ·.offset) ∧
      ∀ token ∈ tokens, ∃ before l after, formula.toList = before ++ (l ++ after) ∧
        token.offset = utf8Length before ∧ Longest (l ++ after) l token.lexeme) ∧
    ∀ e, tokenize formula = .error e ↔
      ∃ tokens last blanks c rest place fault, Cuts 0 formula.toList tokens last (blanks ++ c :: rest) ∧
        (∀ c ∈ blanks, isBlank c = true) ∧ isBlank c = false ∧ NoneFits (c :: rest) ∧
        Misfit (last + utf8Length blanks) (c :: rest) place fault ∧
        e = { cause := .lex fault, offset := place } := by
  refine ⟨fun tokens => tokenize_ok_iff, fun tokens htokens => ?_, fun e => tokenize_error_iff⟩
  obtain ⟨last, rest, h, -⟩ := tokenize_ok_iff.mp htokens
  refine ⟨h.pairwise, fun token hmem => ?_⟩
  obtain ⟨before, l, after, ht, hoffset, hl⟩ := h.lexeme_at token hmem
  exact ⟨before, l, after, ht, by rw [hoffset, Nat.zero_add], hl⟩

end FormulaGraph
