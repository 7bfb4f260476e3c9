import GoCommands.Proofs.Go.Lossless
import GoCommands.Proofs.Go.NumberReach

/-! # How far a token looks

A symbol and a rune look as far as the next white space, a comment and a literal in quotes to their own end. What
stands behind can be exchanged.
-/

namespace GoCommands.Go

namespace Lexer

theorem Pauses.append_ne {w : Text} (hw : Pauses w) {d : Char} (hd : Text.isWhite d = false) {v : Text}
    (h : ∀ rest, v = d :: rest → False) : ∀ rest, v ++ w = d :: rest → False := by
  intro rest hEq
  cases v with
  | nil =>
    rw [List.nil_append] at hEq
    rw [hEq] at hw
    exact absurd (hw d rfl) (Bool.eq_false_iff.mp hd)
  | cons c cs =>
    cases hEq
    exact h cs rfl

theorem Pauses.append_ne_two {w : Text} (hw : Pauses w) {d e : Char} (hd : Text.isWhite d = false)
    (he : Text.isWhite e = false) {v : Text} (h : ∀ rest, v = d :: e :: rest → False) :
    ∀ rest, v ++ w = d :: e :: rest → False := by
  intro rest hEq
  cases v with
  | nil => exact hw.append_ne hd (v := []) (fun _ => nofun) _ hEq
  | cons c cs =>
    obtain ⟨rfl, hRest⟩ := List.cons.inj hEq
    exact hw.append_ne he (fun more hMore => h more (congrArg (List.cons c) hMore)) rest hRest

end Lexer

/-! ## Symbols -/

namespace Symbol

/-- The first characters of symbols. -/
def starts : List Char :=
  ['(', ')', '[', ']', '\x7b', '\x7d', ',', ';', ':', '.', '=', '*', '/', '%', '<', '>', '&', '|', '+', '-', '^', '!',
    '~', '\x00']

theorem not_mem_starts {c : Char} {cs : Text} (h : read? (c :: cs) = none) : c ∉ starts := by
  have hNe : ∀ {d}, (∀ rest, c :: cs = d :: rest → False) → c ≠ d := by
    rintro d hNone rfl
    exact hNone cs rfl
  unfold read? at h
  split at h
  case h_50 =>
    simp only [starts, List.mem_cons, List.not_mem_nil, or_false, not_or]
    refine ⟨?_, ?_, ?_, ?_, ?_, ?_, ?_, ?_, ?_, ?_, ?_, ?_, ?_, ?_, ?_, ?_, ?_, ?_, ?_, ?_, ?_, ?_, ?_, ?_⟩ <;>
      exact hNe (by assumption)
  all_goals cases h

theorem read?_eq_none {c : Char} (h : c ∉ starts) (cs : Text) : read? (c :: cs) = none := by
  unfold read?
  split
  case h_50 => rfl
  all_goals
    rename_i hEq
    rw [(List.cons.inj hEq).1] at h
    exact (h (by simp [starts])).elim

theorem read?_append {v w : Text} (hv : v ≠ []) (hw : Lexer.Pauses w) :
    read? (v ++ w) = (read? v).map fun p => (p.1, p.2 ++ w) := by
  fun_cases read? v
  case case50 =>
    obtain ⟨c, cs, rfl⟩ := List.exists_cons_of_ne_nil hv
    have hNone : read? (c :: cs) = none := by
      rw [read?] <;> assumption
    exact read?_eq_none (not_mem_starts hNone) (cs ++ w)
  all_goals try rfl
  -- What is left are symbols that others begin with: the others do not stand here, also not across the end of `v`.
  all_goals
    simp only [List.cons_append]
    rw [read?]
    · rfl
    all_goals
      first
      | exact hw.append_ne (by decide) (by assumption)
      | exact hw.append_ne_two (by decide) (by decide) (by assumption)

theorem read?_pauses {w : Text} (hw : Lexer.Pauses w) : read? w = none := by
  obtain rfl | ⟨c, cs, rfl, hc⟩ := hw.cases
  · rfl
  · refine read?_eq_none ?_ cs
    intro hMem
    have hNone : starts.any Text.isWhite = false := by decide
    exact absurd hc (List.any_eq_false.mp hNone c hMem)

end Symbol

namespace Lexer

/-! ## Runes -/

/-- A fixed number of digits. -/
def fixedDigits (isDigit : Char → Bool) (n : Nat) (t : Text) : Nat :=
  if (t.take n).length == n && (t.take n).all isDigit then n else 0

theorem IsDigits.reach_fixedDigits {isDigit : Char → Bool} (h : IsDigits isDigit) (n : Nat) :
    Reach 0 (fixedDigits isDigit n) where
  le_length v := by
    rw [fixedDigits]
    split
    · rename_i hFound
      rw [Bool.and_eq_true, beq_iff_eq, List.length_take] at hFound
      omega
    · exact Nat.zero_le _
  append v w hw := by
    rw [fixedDigits, fixedDigits]
    by_cases hEnough : n ≤ v.length
    · rw [List.take_append_of_le_length hEnough]
    · have hShort : ((v.take n).length == n) = false := by
        rw [beq_eq_false_iff_ne, List.length_take]
        omega
      rw [hShort, Bool.false_and, if_neg Bool.false_ne_true]
      obtain rfl | ⟨c, cs, rfl, hc⟩ := hw.cases
      · rw [List.append_nil, hShort, Bool.false_and, if_neg Bool.false_ne_true]
      · have hMem : c ∈ (v ++ c :: cs).take n := by
          obtain ⟨k, hk⟩ := Nat.exists_eq_add_of_lt (Nat.lt_of_not_le hEnough)
          rw [List.take_append, show n - v.length = k + 1 by omega, List.take_succ_cons]
          exact List.mem_append_right _ List.mem_cons_self
        have hSome : ((v ++ c :: cs).take n).all isDigit = false :=
          List.all_eq_false.mpr ⟨c, hMem, by rw [h.white c hc]; exact Bool.false_ne_true⟩
        rw [hSome, Bool.and_false, if_neg Bool.false_ne_true]

/-- Length of an escape in a rune behind its backslash. -/
def runeEscape : Text → Nat
  | 'x' :: h => if (h.take 2).length == 2 && (h.take 2).all isHex then 3 else 0
  | 'u' :: h => if (h.take 4).length == 4 && (h.take 4).all isHex then 5 else 0
  | 'U' :: h => if (h.take 8).length == 8 && (h.take 8).all isHex then 9 else 0
  | c :: h =>
    if isRuneEscape c then 1
    else if isOctal c && (h.take 2).length == 2 && (h.take 2).all isOctal then 3
    else 0
  | [] => 0

theorem runeLength_escape (rest : Text) : runeLength ('\'' :: '\\' :: rest) =
    if runeEscape rest != 0 && (rest.drop (runeEscape rest)).head? == some '\'' then runeEscape rest + 3 else 0 := rfl

theorem runeLength_char {c : Char} (hSlash : c ≠ '\\') (hQuote : c ≠ '\'') (rest : Text) :
    runeLength ('\'' :: c :: '\'' :: rest) = 3 := by
  rw [runeLength]
  · rw [if_neg (by rwa [beq_iff_eq])]
  · exact hSlash

theorem exists_of_runeLength {t : Text} (h : runeLength ('\'' :: t) ≠ 0) :
    (∃ rest, t = '\\' :: rest) ∨ ∃ c rest, t = c :: '\'' :: rest ∧ c ≠ '\\' ∧ c ≠ '\'' := by
  unfold runeLength at h
  split at h
  · rename_i hText
    exact .inl ⟨_, (List.cons.inj hText).2⟩
  · rename_i c rest hSlash hText
    obtain ⟨-, rfl⟩ := List.cons.inj hText
    refine .inr ⟨c, rest, rfl, ?_, ?_⟩
    · exact hSlash
    · rintro rfl
      exact h rfl
  · exact (h rfl).elim

theorem reach_runeEscape : Reach 0 runeEscape := by
  let some (isDigit : Char → Bool) (n : Nat) (t : Text) : Nat :=
    if fixedDigits isDigit n t = 0 then 0 else 1 + fixedDigits isDigit n t
  have hReach : ∀ {isDigit}, IsDigits isDigit → ∀ n, Reach 1 (some isDigit n) := fun h n =>
    (h.reach_fixedDigits n).orNone
  have hEscape : ∀ c, Text.isWhite c → isRuneEscape c = false := by
    intro c hc
    rw [Bool.eq_false_iff]
    intro hMem
    have hNone : "abfnrtv\\'\"".toList.any Text.isWhite = false := by decide
    exact absurd hc (List.any_eq_false.mp hNone c (List.contains_iff_mem.mp hMem))
  have hEq : runeEscape = afterMark (· == 'x') (some isHex 2) (afterMark (· == 'u') (some isHex 4)
      (afterMark (· == 'U') (some isHex 8) (afterMark isRuneEscape (fun _ => 1)
        (afterMark isOctal (some isOctal 2) fun _ => 0)))) := by
    have hSome : ∀ (isDigit : Char → Bool) (n : Nat) (t : Text), some isDigit (n + 1) t =
        if (t.take (n + 1)).length == n + 1 && (t.take (n + 1)).all isDigit then n + 2 else 0 := by
      intro isDigit n t
      simp only [some, fixedDigits]
      split
      · rw [if_neg (Nat.succ_ne_zero n), Nat.add_comm]
      · rw [if_pos rfl]
    funext t
    rw [runeEscape.eq_def]
    split
    · exact (hSome isHex 1 _).symm
    · exact (hSome isHex 3 _).symm
    · exact (hSome isHex 7 _).symm
    · rename_i c h hHex hShort hLong
      have hNot : (c == 'x') = false ∧ (c == 'u') = false ∧ (c == 'U') = false :=
        ⟨beq_eq_false_iff_ne.mpr hHex, beq_eq_false_iff_ne.mpr hShort, beq_eq_false_iff_ne.mpr hLong⟩
      simp only [afterMark, hNot, Bool.false_eq_true, if_false, hSome isOctal 1]
      split
      · rfl
      · cases isOctal c <;> simp
    · rfl
  rw [hEq]
  exact .afterMark (not_white (by decide)) (hReach isDigits_hex 2) <|
    .afterMark (not_white (by decide)) (hReach isDigits_hex 4) <|
    .afterMark (not_white (by decide)) (hReach isDigits_hex 8) <|
    .afterMark hEscape (.const 1) <| .afterMark isDigits_octal.white (hReach isDigits_octal 2) (.const 0)

theorem runeLength_append (v : Text) {w : Text} (hw : Pauses w) :
    runeLength ('\'' :: '\\' :: (v ++ w)) = runeLength ('\'' :: '\\' :: v) := by
  rw [runeLength_escape, runeLength_escape, reach_runeEscape.append v hw,
    head?_drop_append (by decide) hw (reach_runeEscape.le_length v)]

theorem runeLength_le (v : Text) : runeLength ('\'' :: '\\' :: v) ≤ v.length + 2 := by
  rw [runeLength_escape]
  split
  · rename_i hFound
    rw [Bool.and_eq_true, beq_iff_eq, List.head?_drop] at hFound
    have := (List.getElem?_eq_some_iff.mp hFound.2).1
    omega
  · exact Nat.zero_le _

/-! ## Literals in quotes -/

theorem takeWhile_exchange {p : Char → Bool} {v : Text} {c : Char} {rest : Text}
    (h : ((v ++ c :: rest).takeWhile p).length = v.length) (other : Text) :
    ((v ++ c :: other).takeWhile p).length = v.length := by
  induction v with
  | nil =>
    rw [List.nil_append, List.takeWhile_cons] at h ⊢
    split at h
    · cases h
    · rename_i hNot
      rw [if_neg hNot]
  | cons d ds ih =>
    rw [List.cons_append, List.takeWhile_cons] at h ⊢
    split at h
    · rename_i hd
      rw [if_pos hd, List.length_cons, ih (Nat.succ.inj h), List.length_cons]
    · cases h

theorem fixedEscape_exchange {n : Nat} {v : Text} {c : Char} {rest : Text}
    (h : (if ((v ++ c :: rest).take n).length == n && ((v ++ c :: rest).take n).all isHex then n + 1 else 0) =
      v.length + 1) (other : Text) :
    (if ((v ++ c :: other).take n).length == n && ((v ++ c :: other).take n).all isHex then n + 1 else 0) =
      v.length + 1 := by
  split at h
  · rename_i hFound
    obtain rfl : n = v.length := Nat.succ.inj h
    rw [List.take_left] at hFound ⊢
    exact if_pos hFound
  · cases h

theorem escapeLength_exchange {v : Text} (hv : v ≠ []) {c : Char} {rest : Text}
    (h : escapeLength (v ++ c :: rest) = v.length) (other : Text) : escapeLength (v ++ c :: other) = v.length := by
  obtain ⟨d, ds, rfl⟩ := List.exists_cons_of_ne_nil hv
  rw [List.cons_append, List.length_cons] at h ⊢
  unfold escapeLength at h
  split at h
  · cases h
  · rename_i hEq
    cases hEq
    have hDigits : ((ds ++ c :: rest).takeWhile isHex).length = ds.length := by
      split at h <;> omega
    rw [escapeLength, takeWhile_exchange hDigits other]
    rw [hDigits] at h
    exact h
  · rename_i hEq
    cases hEq
    exact fixedEscape_exchange h other
  · rename_i hEq
    cases hEq
    exact fixedEscape_exchange h other
  · rename_i hHex hShort hLong hEq
    cases hEq
    rw [escapeLength]
    · exact h
    · exact hHex
    · exact hShort
    · exact hLong

/-- A literal in quotes is read in the same way whatever stands behind it. -/
theorem IsQuoted.exchange {body rest : Text} (h : IsQuoted body rest) (other : Text) : IsQuoted body other := by
  -- Behind an escape and a comment the body goes on, so these see only its first character.
  induction h with
  | quote => exact .quote other
  | escape hNonempty hEscape hBody ih =>
    obtain ⟨c, cs, rfl⟩ := hBody.exists_cons
    exact .escape hNonempty (escapeLength_exchange hNonempty hEscape (cs ++ other)) ih
  | comment hBlank hComment hBody ih =>
    obtain ⟨c, cs, rfl⟩ := hBody.exists_cons
    exact .comment hBlank (hComment.exchange (cs ++ other)) ih
  | char hQuote hSlash hBreak _ ih => exact .char hQuote hSlash hBreak ih

theorem string?_exchange {t literal rest : Text} (h : string? t = some (literal, rest)) (other : Text) :
    string? (literal ++ other) = some (literal, other) := by
  obtain ⟨-, body, hLiteral, hBody⟩ := string?_eq_some_iff.mp h
  exact string?_eq_some_iff.mpr ⟨rfl, body, hLiteral, hBody.exchange other⟩

theorem exists_of_string? {t literal rest : Text} (h : string? t = some (literal, rest)) :
    ∃ inner, literal = '"' :: inner ++ ['"'] := by
  obtain ⟨-, body, rfl, hBody⟩ := string?_eq_some_iff.mp h
  obtain ⟨inner, rfl⟩ := hBody.exists_concat
  exact ⟨inner, rfl⟩

/-! ## Tokens -/

theorem token?_of_rune {t : Text} {n : Nat} (h : runeLength ('\'' :: t) = n) (hSome : n ≠ 0) :
    token? ('\'' :: t) = some (.rune (('\'' :: t).take n), ('\'' :: t).drop n) := by
  rw [token?, if_neg (by decide), if_neg (by decide), if_neg (by decide), if_pos (by decide), h]
  split
  · exact (hSome rfl).elim
  · rfl

theorem token?_of_startsPlain {t : Text} (h : StartsPlain t) : token? t =
    if numberLength t = 0 then (Symbol.read? t).map fun p => (.symbol p.1, p.2)
    else some (.number (t.take (numberLength t)), t.drop (numberLength t)) := by
  obtain ⟨c, cs, rfl, hStart, hQuote⟩ := h
  simp only [List.mem_cons, List.not_mem_nil, or_false, not_or] at hQuote
  obtain ⟨hString, hRaw, hRune⟩ := hQuote
  rw [token?, if_neg (Bool.eq_false_iff.mp hStart), if_neg (by rwa [beq_iff_eq]), if_neg (by rwa [beq_iff_eq]),
    if_neg (by rwa [beq_iff_eq])]
  split
  · rename_i hZero
    exact (if_pos hZero).symm
  · rename_i hSome
    exact (if_neg hSome).symm

theorem visible_of_token? {c : Char} {cs : Text} {token : Token} {rest : Text}
    (h : token? (c :: cs) = some (token, rest)) : Text.isWhite c = false := by
  rw [Bool.eq_false_iff]
  intro hWhite
  have hPauses : Pauses (c :: cs) := by
    rintro d ⟨⟩
    exact hWhite
  have hStarts : StartsPlain (c :: cs) := by
    refine ⟨c, cs, rfl, ?_, ?_⟩
    · rw [Bool.eq_false_iff]
      intro hStart
      exact Text.not_isWhite_of_isIdentifierStart hStart hWhite
    · intro hMem
      have hNone : ['"', '\x60', '\''].any Text.isWhite = false := by decide
      exact absurd hWhite (List.any_eq_false.mp hNone c hMem)
  have hZero : numberLength (c :: cs) = 0 := reach_numberLength.append [] hPauses
  rw [token?_of_startsPlain hStarts, if_pos hZero, Symbol.read?_pauses hPauses] at h
  cases h

end Lexer

end GoCommands.Go
