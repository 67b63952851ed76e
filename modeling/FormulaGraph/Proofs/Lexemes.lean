import FormulaGraph.Formula.Tokens
import Mathlib.Data.List.TakeWhile

/-! The lexical grammar of formulas. The first character of a lexeme tells its kind, except that a point
can be a mark or start a number, and no lexeme starts with a blank. -/

namespace FormulaGraph

/-- What may stand behind a backslash in a string, and the character it stands for. -/
def escapes : List (Char × Char) := [('"', '"'), ('n', '\n'), ('t', '\t'), ('\\', '\\')]

/-- What stands between the quotes of a string, and what is meant. -/
inductive Contents : List Char → List Char → Prop
  | nil : Contents [] []
  | plain {c : Char} {raw contents : List Char} (hq : c ≠ '"') (hb : c ≠ '\\') (h : Contents raw contents) :
    Contents (c :: raw) (c :: contents)
  | escape {c e : Char} {raw contents : List Char} (he : (c, e) ∈ escapes) (h : Contents raw contents) :
    Contents ('\\' :: c :: raw) (e :: contents)

/-- Digits with at most one point, which is not alone. -/
structure Numeral (l : List Char) : Prop where
  chars : ∀ c ∈ l, c.isDigit = true ∨ c = '.'
  points : l.count '.' ≤ 1
  start : (∃ c rest, l = c :: rest ∧ c.isDigit = true) ∨
    ∃ c rest, l = '.' :: c :: rest ∧ c.isDigit = true

/-- The lexemes, as they are spelled and as tokens have them. -/
inductive Spelled : List Char → Lexeme → Prop
  | name {c : Char} {rest : List Char} (hc : isNameStart c = true) (h : ∀ x ∈ rest, isNameChar x = true) :
    Spelled (c :: rest) (.name (String.ofList (c :: rest)))
  | number {l : List Char} (h : Numeral l) : Spelled l (.number (String.ofList l))
  | text {raw contents : List Char} (h : Contents raw contents) :
    Spelled ('"' :: (raw ++ ['"'])) (.text (String.ofList contents))
  | symbol (s : Symbol) : Spelled s.spelling.toList (.symbol s)

/-- A lexeme at the start of `text`, and no longer one stands there. -/
structure Longest (text l : List Char) (lexeme : Lexeme) : Prop where
  spelled : Spelled l lexeme
  starts : l <+: text
  length_le {l' : List Char} {lexeme' : Lexeme} : Spelled l' lexeme' → l' <+: text → l'.length ≤ l.length

variable {c : Char} {l text rest raw contents : List Char} {lexeme : Lexeme}

theorem mem_escapes_iff {e : Char} : (c, e) ∈ escapes ↔ escaped? c = some e := by
  unfold escaped?
  split <;> simp_all [escapes, eq_comm]

theorem length_le_takeWhile {p : Char → Bool} (h : l <+: text) (hp : ∀ c ∈ l, p c = true) :
    l.length ≤ (text.takeWhile p).length := by
  obtain ⟨rest, rfl⟩ := h
  rw [List.takeWhile_append_of_pos hp, List.length_append]
  exact Nat.le_add_right _ _

/-! First characters. -/

theorem Char.bounds_of_isDigit (h : c.isDigit = true) : 48 ≤ c.toNat ∧ c.toNat ≤ 57 := by
  obtain ⟨hlow, hhigh⟩ := Bool.and_eq_true_iff.mp h
  exact ⟨UInt32.le_iff_toNat_le.mp (of_decide_eq_true hlow),
    UInt32.le_iff_toNat_le.mp (of_decide_eq_true hhigh)⟩

theorem Char.bounds_of_isAlpha (h : c.isAlpha = true) :
    65 ≤ c.toNat ∧ c.toNat ≤ 90 ∨ 97 ≤ c.toNat ∧ c.toNat ≤ 122 := by
  rcases Bool.or_eq_true_iff.mp h with h | h
  · obtain ⟨hlow, hhigh⟩ : 'A'.val ≤ c.val ∧ c.val ≤ 'Z'.val := of_decide_eq_true h
    exact .inl ⟨UInt32.le_iff_toNat_le.mp hlow, UInt32.le_iff_toNat_le.mp hhigh⟩
  · obtain ⟨hlow, hhigh⟩ := Bool.and_eq_true_iff.mp h
    exact .inr ⟨UInt32.le_iff_toNat_le.mp (of_decide_eq_true hlow),
      UInt32.le_iff_toNat_le.mp (of_decide_eq_true hhigh)⟩

theorem not_isBlank_of_isLetter (h : isLetter c = true) : isBlank c = false := by
  have hapart : ∀ blank ∈ blankRanges, ∀ letter ∈ letterRanges,
      blank.2 < letter.1 ∨ letter.2 < blank.1 := by
    decide +kernel
  have hascii : ∀ blank ∈ blankRanges, blank.2 < 65 ∨ 128 ≤ blank.1 := by decide
  refine Bool.eq_false_iff.mpr fun hb => ?_
  obtain ⟨blank, hmem, hlow, hhigh⟩ := CodeRanges.has_iff.mp hb
  rw [isLetter] at h
  split at h
  next hc =>
    have hr := hascii blank hmem
    have hbounds := Char.bounds_of_isAlpha h
    omega
  next =>
    obtain ⟨letter, hmem', hlow', hhigh'⟩ := CodeRanges.has_iff.mp h
    have hr := hapart blank hmem letter hmem'
    omega

/-- Names start with none of the other characters that lexemes start with. -/
theorem not_isNameStart_of_ascii (hc : c.toNat < 128) (ha : c.isAlpha = false) (hu : c ≠ '_') :
    isNameStart c = false := by
  simp [isNameStart, isLetter, hc, ha, hu]

theorem not_isNameStart_of_isDigit (h : c.isDigit = true) : isNameStart c = false := by
  have hd := Char.bounds_of_isDigit h
  refine not_isNameStart_of_ascii (by omega) (Bool.eq_false_iff.mpr fun ha => ?_) ?_
  · have := Char.bounds_of_isAlpha ha
    omega
  · rintro rfl
    cases h

theorem forall_isMark {p : Char → Bool} (hall : "=!<>&|+-*/(),.".toList.all p = true)
    (h : Symbol.isMark c = true) : p c = true :=
  List.all_eq_true.mp hall c (by simpa [Symbol.isMark] using h)

theorem not_isNameStart_of_isMark (h : Symbol.isMark c = true) : isNameStart c = false := by
  simpa using forall_isMark (p := (!isNameStart ·)) (by decide) h

theorem not_isDigit_of_isMark (h : Symbol.isMark c = true) : c.isDigit = false := by
  simpa using forall_isMark (p := (!Char.isDigit ·)) (by decide) h

theorem not_isBlank_of_isMark (h : Symbol.isMark c = true) : isBlank c = false := by
  simpa using forall_isMark (p := (!isBlank ·)) (by decide) h

theorem not_isBlank_of_isDigit (h : c.isDigit = true) : isBlank c = false := by
  have hapart : ∀ blank ∈ blankRanges, blank.2 < 48 ∨ 57 < blank.1 := by decide
  refine Bool.eq_false_iff.mpr fun hb => ?_
  obtain ⟨blank, hmem, hlow, hhigh⟩ := CodeRanges.has_iff.mp hb
  have hr := hapart blank hmem
  have hd := Char.bounds_of_isDigit h
  omega

theorem Symbol.isMark_of_mem {s : Symbol} (h : c ∈ s.spelling.toList) : isMark c = true := by
  have hall : (Symbol.all.all fun s => s.spelling.toList.all isMark) = true := by decide
  exact List.all_eq_true.mp (List.all_eq_true.mp hall s s.mem_all) c h

theorem Symbol.utf8Length_spelling (s : Symbol) : utf8Length s.spelling.toList = s.spelling.length := by
  have hall : ∀ s ∈ Symbol.all, utf8Length s.spelling.toList = s.spelling.length := by decide
  exact hall s s.mem_all

theorem Symbol.spelling_injective {s s' : Symbol} (h : s.spelling.toList = s'.spelling.toList) : s = s' := by
  have hall : ∀ s ∈ Symbol.all, ∀ s' ∈ Symbol.all, s.spelling.toList = s'.spelling.toList → s = s' := by
    decide
  exact hall s s.mem_all s' s'.mem_all h

theorem Symbol.eq_nil_of_point {s : Symbol} (h : s.spelling.toList = '.' :: rest) : rest = [] := by
  have hall : ∀ s ∈ Symbol.all, s.spelling.toList.head? = some '.' → s.spelling.toList.tail = [] := by
    decide
  have hs := hall s s.mem_all
  rw [h] at hs
  exact hs rfl

/-- What the first character of a lexeme says of it. -/
theorem Spelled.kind (h : Spelled (c :: l) lexeme) :
    (isNameStart c = true ∧ (∀ x ∈ l, isNameChar x = true) ∧
        lexeme = .name (String.ofList (c :: l))) ∨
      (Numeral (c :: l) ∧ lexeme = .number (String.ofList (c :: l))) ∨
      (c = '"' ∧ ∃ raw contents, Contents raw contents ∧ l = raw ++ ['"'] ∧
        lexeme = .text (String.ofList contents)) ∨
      (Symbol.isMark c = true ∧ ∃ s, s.spelling.toList = c :: l ∧ lexeme = .symbol s) := by
  generalize hl : c :: l = word at h
  cases h with
  | name hc h =>
    cases hl
    exact .inl ⟨hc, h, rfl⟩
  | number h => exact .inr (.inl ⟨h, rfl⟩)
  | text h =>
    cases hl
    exact .inr (.inr (.inl ⟨rfl, _, _, h, rfl, rfl⟩))
  | symbol s =>
    exact .inr (.inr (.inr ⟨Symbol.isMark_of_mem (by rw [← hl]; exact List.mem_cons_self), s, rfl, rfl⟩))

theorem Numeral.head (h : Numeral (c :: l)) : c.isDigit = true ∨ c = '.' :=
  h.chars c List.mem_cons_self

theorem Spelled.exists_cons (h : Spelled l lexeme) : ∃ c rest, l = c :: rest ∧ isBlank c = false := by
  cases h with
  | @name c rest hc =>
    refine ⟨c, rest, rfl, ?_⟩
    rcases Bool.or_eq_true_iff.mp hc with hc | hc
    · exact not_isBlank_of_isLetter hc
    · rw [beq_iff_eq.mp hc]
      decide
  | number h =>
    rcases h.start with ⟨c, rest, rfl, hc⟩ | ⟨c, rest, rfl, -⟩
    · exact ⟨c, rest, rfl, not_isBlank_of_isDigit hc⟩
    · exact ⟨'.', _, rfl, by decide⟩
  | text => exact ⟨_, _, rfl, by decide⟩
  | symbol s =>
    have hpos := s.spelling_length_pos
    rw [← String.length_toList] at hpos
    obtain ⟨c, rest, hs⟩ := List.exists_cons_of_length_pos hpos
    exact ⟨c, rest, hs, not_isBlank_of_isMark (Symbol.isMark_of_mem (hs ▸ List.mem_cons_self))⟩

/-- A lexeme at the start of a text starts with its first character. -/
theorem Spelled.exists_rest (h : Spelled l lexeme) (hl : l <+: c :: text) :
    ∃ rest, l = c :: rest ∧ rest <+: text := by
  obtain ⟨c', rest, rfl, -⟩ := h.exists_cons
  obtain ⟨rfl, hrest⟩ := List.cons_prefix_cons.mp hl
  exact ⟨rest, rfl, hrest⟩

theorem startsNumber_of_numeral (h : Numeral l) (hl : l <+: c :: text) : startsNumber c text = true := by
  rcases h.start with ⟨d, rest, rfl, hd⟩ | ⟨d, rest, rfl, hd⟩
  · obtain ⟨rfl, -⟩ := List.cons_prefix_cons.mp hl
    simp [startsNumber, hd]
  · obtain ⟨rfl, hrest⟩ := List.cons_prefix_cons.mp hl
    obtain ⟨more, rfl⟩ := hrest
    simp [startsNumber, hd]

theorem Numeral.not_isNameStart (h : Numeral (c :: l)) : isNameStart c = false := by
  rcases h.head with hc | rfl
  · exact not_isNameStart_of_isDigit hc
  · decide

theorem Numeral.ne_quote (h : Numeral (c :: l)) : c ≠ '"' := by
  rintro rfl
  rcases h.head with hc | hc <;> cases hc

theorem Numeral.ne_spelling {s : Symbol} (h : Numeral (c :: l)) : s.spelling.toList ≠ c :: l := by
  intro hs
  rcases h.start with ⟨d, rest, he, hd⟩ | ⟨d, rest, he, -⟩ <;> cases he
  · rw [not_isDigit_of_isMark (Symbol.isMark_of_mem (hs ▸ List.mem_cons_self))] at hd
    cases hd
  · cases Symbol.eq_nil_of_point hs

/-- The spelling of a string shows where it ends, and what is meant. -/
theorem Contents.unique {raw' contents' after after' : List Char} (h : Contents raw contents)
    (h' : Contents raw' contents') (he : raw ++ '"' :: after = raw' ++ '"' :: after') :
    raw = raw' ∧ contents = contents' := by
  induction h generalizing raw' contents' with
  | nil =>
    cases h' with
    | nil => exact ⟨rfl, rfl⟩
    | plain hq => exact absurd (List.cons.inj he).1.symm hq
    | escape => cases he
  | plain hq hb _ ih =>
    cases h' with
    | nil => exact absurd (List.cons.inj he).1 hq
    | plain _ _ h' =>
      obtain ⟨rfl, htail⟩ := List.cons.inj he
      obtain ⟨rfl, rfl⟩ := ih h' htail
      exact ⟨rfl, rfl⟩
    | escape => exact absurd (List.cons.inj he).1 hb
  | escape hc _ ih =>
    cases h' with
    | nil => cases he
    | plain _ hb => exact absurd (List.cons.inj he).1.symm hb
    | escape hc' h' =>
      obtain ⟨-, htail⟩ := List.cons.inj he
      obtain ⟨rfl, hrest⟩ := List.cons.inj htail
      obtain ⟨rfl, rfl⟩ := ih h' hrest
      rw [mem_escapes_iff] at hc hc'
      rw [hc, Option.some.injEq] at hc'
      exact ⟨rfl, congrArg (· :: _) hc'⟩

theorem Spelled.unique {lexeme' : Lexeme} (h : Spelled l lexeme) (h' : Spelled l lexeme') :
    lexeme = lexeme' := by
  obtain ⟨c, rest, rfl, -⟩ := h.exists_cons
  rcases h.kind with ⟨hc, -, rfl⟩ | ⟨hn, rfl⟩ | ⟨rfl, raw, contents, hraw, hrest, rfl⟩ | ⟨hm, s, hs, rfl⟩
  · rcases h'.kind with ⟨-, -, rfl⟩ | ⟨hn', -⟩ | ⟨rfl, -⟩ | ⟨hm', -⟩
    · rfl
    · rw [hn'.not_isNameStart] at hc
      cases hc
    · cases hc
    · rw [not_isNameStart_of_isMark hm'] at hc
      cases hc
  · rcases h'.kind with ⟨hc', -⟩ | ⟨-, rfl⟩ | ⟨hq', -⟩ | ⟨-, s', hs', -⟩
    · rw [hn.not_isNameStart] at hc'
      cases hc'
    · rfl
    · exact absurd hq' hn.ne_quote
    · exact absurd hs' hn.ne_spelling
  · rcases h'.kind with ⟨hc', -⟩ | ⟨hn', -⟩ | ⟨-, raw', contents', hraw', hrest', rfl⟩ | ⟨hm', -⟩
    · cases hc'
    · exact absurd rfl hn'.ne_quote
    · rw [(hraw.unique hraw' (hrest.symm.trans hrest')).2]
    · cases hm'
  · rcases h'.kind with ⟨hc', -⟩ | ⟨hn', -⟩ | ⟨rfl, -⟩ | ⟨-, s', hs', rfl⟩
    · rw [not_isNameStart_of_isMark hm] at hc'
      cases hc'
    · exact absurd hs hn'.ne_spelling
    · cases hm
    · rw [Symbol.spelling_injective (hs.trans hs'.symm)]

theorem Longest.unique {l' : List Char} {lexeme' : Lexeme} (h : Longest text l lexeme)
    (h' : Longest text l' lexeme') : l = l' ∧ lexeme = lexeme' := by
  have hlength := Nat.le_antisymm (h'.length_le h.spelled h.starts) (h.length_le h'.spelled h'.starts)
  obtain rfl := (List.prefix_of_prefix_length_le h.starts h'.starts hlength.le).eq_of_length hlength
  exact ⟨rfl, h.spelled.unique h'.spelled⟩

/-! The longest lexeme of each kind. -/

theorem longest_name (hc : isNameStart c = true) :
    Longest (c :: text) (c :: text.takeWhile isNameChar)
      (.name (String.ofList (c :: text.takeWhile isNameChar))) where
  spelled := .name hc (List.all_eq_true.mp List.all_takeWhile)
  starts := List.cons_prefix_cons.mpr ⟨rfl, List.takeWhile_prefix _⟩
  length_le h hl := by
    obtain ⟨rest, rfl, hrest⟩ := h.exists_rest hl
    rcases h.kind with ⟨-, hall, -⟩ | ⟨hn, -⟩ | ⟨rfl, -⟩ | ⟨hm, -⟩
    · exact Nat.succ_le_succ (length_le_takeWhile hrest hall)
    · rcases hn.head with hd | rfl
      · rw [not_isNameStart_of_isDigit hd] at hc
        cases hc
      · cases hc
    · cases hc
    · rw [not_isNameStart_of_isMark hm] at hc
      cases hc

theorem Symbol.starts_of_leading? {s : Symbol} (h : leading? text = some s) : s.spelling.toList <+: text := by
  rw [leading?] at h
  have hs := List.find?_some h
  exact List.isPrefixOf_iff_prefix.mp hs

theorem longest_symbol {s : Symbol} (hs : Symbol.leading? (c :: text) = some s)
    (hn : startsNumber c text = false) : Longest (c :: text) s.spelling.toList (.symbol s) where
  spelled := .symbol s
  starts := Symbol.starts_of_leading? hs
  length_le {l' x} h hl := by
    have hmark : Symbol.isMark c = true := by
      obtain ⟨rest, hrest, -⟩ := (Spelled.symbol s).exists_rest (Symbol.starts_of_leading? hs)
      exact Symbol.isMark_of_mem (hrest ▸ List.mem_cons_self)
    cases h with
    | name hc =>
      obtain ⟨rfl, -⟩ := List.cons_prefix_cons.mp hl
      rw [not_isNameStart_of_isMark hmark] at hc
      cases hc
    | number h =>
      rw [startsNumber_of_numeral h hl] at hn
      cases hn
    | text =>
      obtain ⟨rfl, -⟩ := List.cons_prefix_cons.mp hl
      cases hmark
    | symbol s' =>
      have hsorted : Symbol.all.Pairwise fun s s' => s'.spelling.toList.length ≤ s.spelling.toList.length := by
        decide
      obtain ⟨-, before, after, hall, hbefore⟩ := List.find?_eq_some_iff_append.mp hs
      have hmem := s'.mem_all
      rw [hall] at hmem hsorted
      rcases List.mem_append.mp hmem with hmem | hmem
      · have := hbefore s' hmem
        rw [List.isPrefixOf_iff_prefix.mpr hl] at this
        cases this
      · rcases List.mem_cons.mp hmem with rfl | hmem
        · exact Nat.le_refl _
        · exact (List.pairwise_cons.mp (List.pairwise_append.mp hsorted).2.1).1 s' hmem

theorem takeNumber_append (text : List Char) : (takeNumber text).1 ++ (takeNumber text).2 = text := by
  have h := List.takeWhile_append_dropWhile (p := Char.isDigit) (l := text)
  unfold takeNumber
  split
  next rest he =>
    rw [he] at h
    rw [List.append_assoc, List.cons_append, List.takeWhile_append_dropWhile, h]
  next => exact h

theorem numeral_takeNumber (h : startsNumber c text = true) : Numeral (takeNumber (c :: text)).1 := by
  have hdigits : ∀ rest : List Char, ∀ x ∈ rest.takeWhile Char.isDigit, x.isDigit = true :=
    fun rest => List.all_eq_true.mp List.all_takeWhile
  have hcount : ∀ rest : List Char, (rest.takeWhile Char.isDigit).count '.' = 0 :=
    fun rest => List.count_eq_zero.mpr fun hmem => by cases hdigits rest _ hmem
  constructor
  · intro x hx
    unfold takeNumber at hx
    split at hx
    · rcases List.mem_append.mp hx with hx | hx
      · exact .inl (hdigits _ x hx)
      · rcases List.mem_cons.mp hx with rfl | hx
        · exact .inr rfl
        · exact .inl (hdigits _ x hx)
    · exact .inl (hdigits _ x hx)
  · unfold takeNumber
    split
    · simp only [List.count_append, List.count_cons_self, hcount]
      omega
    · simp only [hcount]
      omega
  · simp only [startsNumber, Bool.or_eq_true, Bool.and_eq_true, beq_iff_eq] at h
    rcases h with h | ⟨rfl, h⟩
    · left
      unfold takeNumber
      rw [List.takeWhile_cons_of_pos h]
      split <;> exact ⟨c, _, rfl, h⟩
    · right
      cases text with
      | nil => cases h
      | cons d text =>
        have hd : d.isDigit = true := h
        refine ⟨d, text.takeWhile Char.isDigit, ?_, hd⟩
        simp [takeNumber, hd]

theorem takeNumber_point {whole : List Char} (h : ∀ x ∈ whole, x.isDigit = true) (rest : List Char) :
    takeNumber (whole ++ '.' :: rest) =
      (whole ++ '.' :: rest.takeWhile Char.isDigit, rest.dropWhile Char.isDigit) := by
  have hpoint : '.'.isDigit = false := by decide
  simp [takeNumber, List.takeWhile_append_of_pos h, List.dropWhile_append_of_pos h, hpoint]

theorem length_takeWhile_le_takeNumber (text : List Char) :
    (text.takeWhile Char.isDigit).length ≤ (takeNumber text).1.length := by
  unfold takeNumber
  split
  · simp
  · exact Nat.le_refl _

theorem length_le_takeNumber (hl : l <+: text) (hchars : ∀ x ∈ l, x.isDigit = true ∨ x = '.')
    (hpoints : l.count '.' ≤ 1) : l.length ≤ (takeNumber text).1.length := by
  have hwhole : ∀ x ∈ l.takeWhile Char.isDigit, x.isDigit = true := List.all_eq_true.mp List.all_takeWhile
  have hsplit := List.takeWhile_append_dropWhile (p := Char.isDigit) (l := l)
  generalize l.takeWhile Char.isDigit = whole at hwhole hsplit
  cases hd : l.dropWhile Char.isDigit with
  | nil =>
    -- No point: the digits in front of a point are enough.
    exact Nat.le_trans (length_le_takeWhile hl (List.dropWhile_eq_nil_iff.mp hd))
      (length_takeWhile_le_takeNumber text)
  | cons point digits =>
    have hdigit := List.head?_dropWhile_not Char.isDigit l
    simp only [hd, List.head?_cons] at hdigit hsplit
    obtain rfl : point = '.' := by
      have hmem := hchars point (by simp [← hsplit])
      simpa [hdigit] using hmem
    obtain ⟨more, rfl⟩ := hl
    subst hsplit
    -- A second point would make two.
    have hnone : '.' ∉ digits := by
      rw [List.count_append, List.count_cons_self] at hpoints
      exact List.count_eq_zero.mp (by omega)
    have hall : ∀ x ∈ digits, x.isDigit = true := fun x hx =>
      (hchars x (by simp [hx])).resolve_right fun he => hnone (he ▸ hx)
    have hfraction := length_le_takeWhile (List.prefix_append digits more) hall
    rw [List.append_assoc, List.cons_append, takeNumber_point hwhole]
    simp only [List.length_append, List.length_cons]
    omega

theorem longest_number (h : startsNumber c text = true) :
    Longest (c :: text) (takeNumber (c :: text)).1 (.number (String.ofList (takeNumber (c :: text)).1)) where
  spelled := .number (numeral_takeNumber h)
  starts := ⟨_, takeNumber_append _⟩
  length_le {l' x} hl' hl := by
    have hnumeral := numeral_takeNumber h
    have hstarts : (takeNumber (c :: text)).1 <+: c :: text := ⟨_, takeNumber_append _⟩
    have hc : c.isDigit = true ∨ c = '.' := by
      obtain ⟨_, hcons, -⟩ := (Spelled.number hnumeral).exists_rest hstarts
      exact (hcons ▸ hnumeral).head
    cases hl' with
    | name hname =>
      obtain ⟨rfl, -⟩ := List.cons_prefix_cons.mp hl
      rcases hc with hc | rfl
      · rw [not_isNameStart_of_isDigit hc] at hname
        cases hname
      · cases hname
    | number hn => exact length_le_takeNumber hl hn.chars hn.points
    | text =>
      obtain ⟨rfl, -⟩ := List.cons_prefix_cons.mp hl
      rcases hc with hc | hc <;> cases hc
    | symbol s =>
      -- Only the point can be the mark here, and it is alone.
      obtain ⟨_, hcons, -⟩ := (Spelled.number hnumeral).exists_rest hstarts
      obtain ⟨rest, hs, -⟩ := (Spelled.symbol s).exists_rest hl
      rcases hc with hc | rfl
      · have hmark : Symbol.isMark c = true := Symbol.isMark_of_mem (hs ▸ List.mem_cons_self)
        rw [not_isDigit_of_isMark hmark] at hc
        cases hc
      · rw [hs, hcons, Symbol.eq_nil_of_point hs]
        exact Nat.succ_le_succ (Nat.zero_le _)

end FormulaGraph
