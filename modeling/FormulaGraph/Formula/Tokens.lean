import FormulaGraph.Formula.Token

/-! The token list of a formula. Every token takes at least one character, so the text runs out. -/

namespace FormulaGraph

theorem length_dropWhile_le {α : Type} (p : α → Bool) (xs : List α) :
    (xs.dropWhile p).length ≤ xs.length := by
  have h := congrArg List.length (List.takeWhile_append_dropWhile (p := p) (l := xs))
  rw [List.length_append] at h
  omega

theorem length_takeNumber_lt {c : Char} {text : List Char} (h : startsNumber c text = true) :
    (takeNumber (c :: text)).2.length < (c :: text).length := by
  by_cases hc : c.isDigit = true
  · have hd : (c :: text).dropWhile Char.isDigit = text.dropWhile Char.isDigit := by
      rw [List.dropWhile_cons_of_pos hc]
    have hl := length_dropWhile_le Char.isDigit text
    unfold takeNumber
    split
    next rest he =>
      rw [hd] at he
      rw [he, List.length_cons] at hl
      have := length_dropWhile_le Char.isDigit rest
      simp only [List.length_cons]
      omega
    next rest =>
      simp only [hd, List.length_cons]
      omega
  · have hdot : c = '.' := by
      simp only [startsNumber, Bool.or_eq_true, Bool.and_eq_true, beq_iff_eq] at h
      rcases h with h | h
      · exact absurd h hc
      · exact h.1
    subst hdot
    have hd : ('.' :: text).dropWhile Char.isDigit = '.' :: text := by
      rw [List.dropWhile_cons_of_neg hc]
    have := length_dropWhile_le Char.isDigit text
    simp only [takeNumber, hd, List.length_cons]
    omega

theorem length_takeString_le {opened offset : Nat} {text : List Char} {s : Scan (List Char)}
    (h : takeString opened offset text = .ok s) : s.rest.length ≤ text.length := by
  fun_induction takeString opened offset text generalizing s with
  | case1 => cases h
  | case2 => cases h
  | case3 => cases h; simp
  | case4 offset c rest e he ih =>
    cases hs : takeString opened (offset + 2) rest with
    | error e => rw [hs] at h; cases h
    | ok t =>
      rw [hs] at h
      cases h
      have := ih hs
      simp only [Scan.map, List.length_cons]
      omega
  | case5 => cases h
  | case6 offset c rest _ _ _ ih =>
    cases hs : takeString opened (offset + c.utf8Size) rest with
    | error e => rw [hs] at h; cases h
    | ok t =>
      rw [hs] at h
      cases h
      have := ih hs
      simp only [Scan.map, List.length_cons]
      omega

theorem Symbol.spelling_length_pos (s : Symbol) : 0 < s.spelling.length := by
  cases s with
  | binary op => cases op <;> decide
  | _ => decide

theorem length_takeToken_lt {offset : Nat} {c : Char} {text : List Char} {s : Scan Token}
    (h : takeToken offset c text = .ok s) : s.rest.length < (c :: text).length := by
  unfold takeToken at h
  split at h
  · cases h
    exact Nat.lt_succ_of_le (length_dropWhile_le _ _)
  · split at h
    next hn =>
      cases h
      exact length_takeNumber_lt hn
    · split at h
      · cases hs : takeString offset (offset + 1) text with
        | error e => rw [hs] at h; cases h
        | ok t =>
          rw [hs] at h
          cases h
          exact Nat.lt_succ_of_le (length_takeString_le hs)
      · split at h
        · split at h
          next symbol _ =>
            cases h
            have := symbol.spelling_length_pos
            simp only [List.length_drop, List.length_cons]
            omega
          · cases h
        · cases h

def tokensFrom (offset : Nat) (text : List Char) : Checked (List Token) :=
  match _h : text.dropWhile isBlank with
  | [] => .ok []
  | c :: rest =>
    match _ht : takeToken (offset + utf8Length (text.takeWhile isBlank)) c rest with
    | .error e => .error e
    | .ok s => do return s.read :: (← tokensFrom s.offset s.rest)
termination_by text.length
decreasing_by
  have hl := length_dropWhile_le isBlank text
  rw [_h] at hl
  exact Nat.lt_of_lt_of_le (length_takeToken_lt _ht) hl

def tokenize (formula : String) : Checked (List Token) := tokensFrom 0 formula.toList

end FormulaGraph
