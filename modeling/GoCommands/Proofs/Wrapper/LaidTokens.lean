import GoCommands.Proofs.Go.TokenStream
import GoCommands.Proofs.Wrapper.WhiteRuns

/-! # Tokens of a laid out text

The layout keeps every token that has no white space inside, and what is skipped between tokens stays between them.
Only the literals of more than one line can change.
-/

namespace GoCommands.Layout

open Go Go.Lexer

theorem isWhite_head?_finished {held : Text} (hNonempty : held ≠ []) (hHeld : ∀ c ∈ held, Text.isWhite c) (t : Text) :
    ∀ c ∈ (finished held t).head?, Text.isWhite c := by
  induction t generalizing held with
  | nil =>
    rintro c ⟨⟩
    decide
  | cons d ds ih =>
    rw [finished, pressTo]
    split
    · rename_i hd
      exact ih (List.append_ne_nil_of_left_ne_nil hNonempty _)
        (List.forall_mem_append.mpr ⟨hHeld, List.forall_mem_singleton.mpr hd⟩)
    · obtain ⟨c, cs, hPress⟩ := List.exists_cons_of_ne_nil (mt press_eq_nil_iff.mp hNonempty)
      rw [hPress]
      rintro c ⟨⟩
      exact isWhite_press hHeld c (by rw [hPress]; exact List.mem_cons_self)

theorem pauses_finished {w : Text} (h : Pauses w) : Pauses (finished [] w) := by
  obtain rfl | ⟨c, cs, rfl, hc⟩ := h.cases
  · rintro c ⟨⟩
    decide
  · rw [finished, pressTo, if_pos hc]
    exact isWhite_head?_finished (List.cons_ne_nil c []) (List.forall_mem_singleton.mpr hc) cs

/-- The layout of a text by its first part without white space. -/
theorem exists_visible_append (t : Text) :
    ∃ v w, t = v ++ w ∧ (∀ c ∈ v, Text.isWhite c = false) ∧ Pauses w ∧ finished [] t = v ++ finished [] w := by
  have hVisible : ∀ c ∈ t.takeWhile fun c => !Text.isWhite c, Text.isWhite c = false := by
    intro c hc
    simpa using List.mem_takeWhile_imp hc
  have hPauses : Pauses (t.dropWhile fun c => !Text.isWhite c) := by
    intro c hc
    simpa using Text.head?_dropWhile _ t c hc
  refine ⟨_, _, List.takeWhile_append_dropWhile.symm, hVisible, hPauses, ?_⟩
  conv => lhs; rw [← List.takeWhile_append_dropWhile (p := fun c => !Text.isWhite c) (l := t)]
  exact pressTo_visible _ hVisible _

/-- A visible character at the start was there before. -/
theorem exists_of_finished {t : Text} {c : Char} {rest : Text} (h : finished [] t = c :: rest)
    (hVisible : Text.isWhite c = false) : ∃ more, t = c :: more := by
  obtain ⟨v, w, rfl, -, hPauses, hLaid⟩ := exists_visible_append t
  rw [hLaid] at h
  cases v with
  | nil =>
    rw [List.nil_append] at h
    exact absurd (pauses_finished hPauses c (by rw [h]; rfl)) (Bool.eq_false_iff.mp hVisible)
  | cons d ds =>
    rw [(List.cons.inj h).1]
    exact ⟨_, rfl⟩

theorem exists_finished_break (held t : Text) : ∃ rest, finished ('\n' :: held) t = '\n' :: rest := by
  induction t generalizing held with
  | nil => exact ⟨[], rfl⟩
  | cons c cs ih =>
    rw [finished, pressTo]
    split
    · exact ih (held ++ [c])
    · rw [press, if_pos List.mem_cons_self]
      split <;> exact ⟨_, rfl⟩

theorem ends_finished {t : Text} (h : Ends t) : Ends (finished [] t) := by
  obtain ⟨v, w, rfl, hVisible, hPauses, hEq⟩ := exists_visible_append t
  rw [hEq]
  cases v with
  | nil =>
    intro c hc
    rw [Bool.eq_false_iff]
    intro hPart
    exact Text.not_isWhite_of_isIdentifierPart hPart (pauses_finished hPauses c hc)
  | cons d ds => exact h

/-! ## Tokens -/

/-- What the layout makes of a token. -/
def laid : Token → Token
  | .rawString literal => .rawString (pressed [] literal)
  | token => token

theorem finished_word {c : Char} (hStart : Text.isIdentifierStart c) (cs : Text) : finished [] (c :: cs) =
    c :: cs.takeWhile Text.isIdentifierPart ++ finished [] (cs.dropWhile Text.isIdentifierPart) := by
  have hVisible : ∀ d ∈ c :: cs.takeWhile Text.isIdentifierPart, Text.isWhite d = false := by
    refine List.forall_mem_cons.mpr ⟨?_, fun d hd => ?_⟩
    · exact Bool.eq_false_iff.mpr (Text.not_isWhite_of_isIdentifierStart hStart)
    · exact Bool.eq_false_iff.mpr (Text.not_isWhite_of_isIdentifierPart (List.mem_takeWhile_imp hd))
  conv => lhs; rw [← List.takeWhile_append_dropWhile (p := Text.isIdentifierPart) (l := cs)]
  exact pressTo_visible _ hVisible _

theorem endsVisible_concat {c : Char} (h : Text.isWhite c = false) (t : Text) : EndsVisible (t ++ [c]) := ⟨t, c, rfl, h⟩

theorem token?_finished_string {t literal rest : Text} (h : string? t = some (literal, rest))
    (hSteady : pressed [] literal = literal) :
    token? (finished [] t) = some (.string literal, finished [] rest) := by
  obtain ⟨inner, hLiteral⟩ := exists_of_string? h
  have hEnds : EndsVisible literal := hLiteral ▸ endsVisible_concat (by decide) ('"' :: inner)
  have hLaid : finished [] t = literal ++ finished [] rest := by
    rw [(string?_eq_some_iff.mp h).1, finished, pressTo_append _ hEnds, hSteady]
  rw [hLaid]
  exact token?_string (by rw [hLiteral]; rfl) (string?_exchange h _)

/-- A literal with its quotes, whatever these are. -/
theorem pressed_quoted {quote : Char} (h : Text.isWhite quote = false) (inner : Text) :
    pressed [] (quote :: inner ++ [quote]) = quote :: between [] inner ++ [quote] := by
  rw [List.cons_append, pressed, pressTo_cons _ h]
  exact congrArg (List.cons quote) (pressed_between h [] inner)

theorem token?_finished_rawString {t literal rest : Text} (h : rawString? t = some (literal, rest)) :
    token? (finished [] t) = some (.rawString (pressed [] literal), finished [] rest) := by
  obtain ⟨rfl, inner, rfl, hMem⟩ := rawString?_eq_some_iff.mp h
  have hQuote : Text.isWhite '\x60' = false := by decide
  have hLaid : finished [] ('\x60' :: inner ++ ['\x60'] ++ rest) =
      '\x60' :: between [] inner ++ ['\x60'] ++ finished [] rest := by
    rw [← pressed_quoted hQuote, finished, pressTo_append _ (endsVisible_concat hQuote ('\x60' :: inner))]
  have hBetween : '\x60' ∉ between [] inner := fun hFound => hMem ((pressTo_sublist press press_sublist [] inner).subset hFound)
  have hRead : rawString? ('\x60' :: between [] inner ++ ['\x60'] ++ finished [] rest) =
      some ('\x60' :: between [] inner ++ ['\x60'], finished [] rest) :=
    rawString?_eq_some_iff.mpr ⟨rfl, _, rfl, hBetween⟩
  rw [hLaid, pressed_quoted hQuote]
  rw [List.cons_append, List.cons_append] at hRead ⊢
  rw [token?, if_neg (by decide), if_neg (by decide), if_pos (by decide), hRead]
  rfl

theorem between_singleton (c : Char) : between [] [c] = [c] := by
  rw [between, pressTo, pressTo, pressTo, List.nil_append]
  split
  · by_cases hBreak : c = '\n'
    · rw [hBreak]
      rfl
    · exact press_of_not_mem (by rwa [List.mem_singleton, eq_comm])
  · rfl

theorem token?_finished_rune {t : Text} (hSome : runeLength ('\'' :: t) ≠ 0) :
    token? (finished [] ('\'' :: t)) = some (.rune (('\'' :: t).take (runeLength ('\'' :: t))),
      finished [] (('\'' :: t).drop (runeLength ('\'' :: t)))) := by
  rcases exists_of_runeLength hSome with ⟨escape, rfl⟩ | ⟨c, rest, rfl, hSlash, hQuote⟩
  · obtain ⟨v, w, rfl, hVisible, hPauses, -⟩ := exists_visible_append escape
    have hAll : ∀ c ∈ '\'' :: '\\' :: v, Text.isWhite c = false :=
      List.forall_mem_cons.mpr ⟨by decide, List.forall_mem_cons.mpr ⟨by decide, hVisible⟩⟩
    have hRest : ∀ {u : Text}, u <:+ '\'' :: '\\' :: v → finished [] (u ++ w) = u ++ finished [] w := fun hu =>
      pressTo_visible _ (fun c hc => hAll c (hu.subset hc)) w
    have hLength : runeLength ('\'' :: '\\' :: v) ≤ ('\'' :: '\\' :: v).length := runeLength_le v
    have hLater := runeLength_append v (pauses_finished hPauses)
    rw [runeLength_append v hPauses] at hSome ⊢
    have hRead := token?_of_rune hLater hSome
    rw [← List.cons_append, ← List.cons_append, List.take_append_of_le_length hLength,
      List.drop_append_of_le_length hLength] at hRead ⊢
    rw [hRest List.suffix_rfl, hRest (List.drop_suffix _ _)]
    exact hRead
  · have hLength : ∀ rest, runeLength ('\'' :: c :: '\'' :: rest) = 3 := runeLength_char hSlash hQuote
    have hLaid : finished [] ('\'' :: c :: '\'' :: rest) = '\'' :: c :: '\'' :: finished [] rest := by
      have hInside := pressTo_between (fun _ => ['\n']) (c := '\'') (by decide) [] [c] rest
      rw [between_singleton] at hInside
      rw [finished, pressTo_cons _ (by decide)]
      exact congrArg (List.cons '\'') hInside
    rw [hLaid, token?_of_rune (hLength _) (by decide), hLength rest]
    rfl

theorem token?_finished_plain {t : Text} (hStart : StartsPlain t) {token : Token} {rest : Text}
    (h : token? t = some (token, rest)) : token? (finished [] t) = some (laid token, finished [] rest) := by
  obtain ⟨v, w, rfl, hVisible, hPauses, hLaid⟩ := exists_visible_append t
  have hOther := pauses_finished hPauses
  rw [token?_of_startsPlain hStart, reach_numberLength.append v hPauses] at h
  have hNonempty : v ≠ [] := by
    rintro rfl
    have hZero : numberLength [] = 0 := rfl
    rw [if_pos hZero, List.nil_append, Symbol.read?_pauses hPauses] at h
    cases h
  have hLaidStart : StartsPlain (v ++ finished [] w) := by
    obtain ⟨d, ds, rfl⟩ := List.exists_cons_of_ne_nil hNonempty
    obtain ⟨c, cs, hText, hFirst⟩ := hStart
    obtain ⟨rfl, -⟩ := List.cons.inj hText
    exact ⟨d, _, rfl, hFirst⟩
  rw [hLaid, token?_of_startsPlain hLaidStart, reach_numberLength.append v hOther]
  have hRest : ∀ {u : Text}, u <:+ v → finished [] (u ++ w) = u ++ finished [] w := fun hu =>
    pressTo_visible _ (fun c hc => hVisible c (hu.subset hc)) w
  by_cases hZero : numberLength v = 0
  · rw [if_pos hZero] at h ⊢
    obtain ⟨⟨s, behind⟩, hSymbol, hEq⟩ := Option.map_eq_some_iff.mp h
    cases hEq
    rw [Symbol.read?_append hNonempty hPauses] at hSymbol
    obtain ⟨⟨s, behind⟩, hRead, hEq⟩ := Option.map_eq_some_iff.mp hSymbol
    cases hEq
    have hSuffix : behind <:+ v := ⟨s.text, Symbol.text_append_of_read? hRead⟩
    rw [Symbol.read?_append hNonempty hOther, hRead, hRest hSuffix]
    rfl
  · rw [if_neg hZero] at h ⊢
    cases h
    have hLength := reach_numberLength.le_length v
    rw [List.take_append_of_le_length hLength, List.take_append_of_le_length hLength,
      List.drop_append_of_le_length hLength, List.drop_append_of_le_length hLength, hRest (List.drop_suffix _ v)]
    rfl

/-- The layout of the text from a token on begins with this token, but for a literal in double quotes that the layout
changes. -/
theorem token?_finished {t : Text} {token : Token} {rest : Text} (h : token? t = some (token, rest))
    (hSteady : ∀ literal, token = .string literal → pressed [] literal = literal) :
    token? (finished [] t) = some (laid token, finished [] rest) := by
  cases tokenAt_of_token? h with
  | keyword hStart hKeyword =>
    rw [finished_word hStart, ← Keyword.text_of_ofText? hKeyword]
    exact token?_keyword _ (ends_finished (Text.head?_dropWhile _ _))
  | word hStart =>
    rw [finished_word hStart]
    exact token?_word (isWord_of_token? h) (ends_finished (Text.head?_dropWhile _ _))
  | string hLiteral => exact token?_finished_string hLiteral (hSteady _ rfl)
  | rawString hLiteral => exact token?_finished_rawString hLiteral
  | rune hSome => exact token?_finished_rune hSome
  | number hStart | symbol hStart => exact token?_finished_plain hStart h

/-! ## Comments -/

theorem afterCommentEnd?_finished {held : Text} (hHeld : ∀ c ∈ held, Text.isWhite c) (t : Text) :
    Text.afterCommentEnd? (finished held t) = (Text.afterCommentEnd? t).map (finished []) := by
  induction t using Text.commentEnd_induction generalizing held with
  | nil => rfl
  | close rest =>
    rw [finished, pressTo_cons _ (by decide), pressTo_cons _ (by decide), press_nil, List.nil_append,
      Text.afterCommentEnd?_white_append (isWhite_press hHeld)]
    rfl
  | cons c cs hOther ih =>
    rw [Text.afterCommentEnd?_cons hOther]
    by_cases hWhite : Text.isWhite c
    · rw [finished, pressTo, if_pos hWhite]
      exact ih (List.forall_mem_append.mpr ⟨hHeld, List.forall_mem_singleton.mpr hWhite⟩)
    · rw [finished, pressTo, if_neg hWhite, Text.afterCommentEnd?_white_append (isWhite_press hHeld),
        Text.afterCommentEnd?_cons]
      · exact ih (List.forall_mem_nil _)
      · intro rest hStar hSlash
        obtain ⟨more, rfl⟩ := exists_of_finished hSlash (by decide)
        exact hOther more hStar rfl

theorem dropWhile_finished {held : Text} (hClean : '\n' ∉ held) (t : Text) :
    (finished held t).dropWhile (· != '\n') = finished [] (t.dropWhile (· != '\n')) := by
  induction t generalizing held with
  | nil => rfl
  | cons c cs ih =>
    by_cases hBreak : c = '\n'
    · obtain ⟨rest, hLaid⟩ := exists_finished_break [] cs
      have hFirst : finished [] ('\n' :: cs) = '\n' :: rest := hLaid
      rw [hBreak, finished_held hClean (by rintro d ⟨⟩; rfl), hFirst]
      exact hFirst.symm
    · have hNot : (c != '\n') = true := by rwa [bne_iff_ne]
      rw [List.dropWhile_cons, if_pos hNot, finished, pressTo]
      split
      · refine ih ?_
        rw [List.mem_append, List.mem_singleton]
        exact not_or.mpr ⟨hClean, Ne.symm hBreak⟩
      · have hAll : ∀ d ∈ held, (d != '\n') = true := by
          intro d hd
          rw [bne_iff_ne]
          exact ne_of_mem_of_not_mem hd hClean
        rw [press_of_not_mem hClean, List.dropWhile_append_of_pos hAll, List.dropWhile_cons, if_pos hNot]
        exact ih List.not_mem_nil

theorem commentEnd?_finished (t : Text) :
    (comment? (finished [] t)).map Prod.snd = ((comment? t).map Prod.snd).map (finished []) := by
  have hLaid : ∀ {c : Char}, Text.isWhite c = false → ∀ t, finished [] (c :: t) = c :: finished [] t :=
    fun h t => pressTo_cons _ h [] t
  by_cases hLine : ∃ rest, t = '/' :: '/' :: rest
  · obtain ⟨rest, rfl⟩ := hLine
    rw [hLaid (by decide), hLaid (by decide)]
    exact congrArg some (dropWhile_finished List.not_mem_nil rest)
  by_cases hBlock : ∃ rest, t = '/' :: '*' :: rest
  · obtain ⟨rest, rfl⟩ := hBlock
    have hEnd : ∀ t, (comment? ('/' :: '*' :: t)).map Prod.snd = Text.afterCommentEnd? t := by
      intro t
      rw [Text.afterCommentEnd?_eq_map, comment?, Option.map_map]
      rfl
    rw [hLaid (by decide), hLaid (by decide), hEnd, hEnd, afterCommentEnd?_finished (List.forall_mem_nil _)]
  have hNone : ∀ {t}, (∀ d, (d = '/' ∨ d = '*') → ∀ rest, t ≠ '/' :: d :: rest) → comment? t = none := by
    intro t h
    rw [comment?]
    · rintro rest rfl
      exact h '/' (.inl rfl) rest rfl
    · rintro rest rfl
      exact h '*' (.inr rfl) rest rfl
  have hText : ∀ d, (d = '/' ∨ d = '*') → ∀ rest, t ≠ '/' :: d :: rest := by
    rintro d (rfl | rfl) rest rfl
    · exact hLine ⟨rest, rfl⟩
    · exact hBlock ⟨rest, rfl⟩
  rw [hNone hText, hNone]
  · rfl
  · intro d hd rest hEq
    obtain ⟨more, rfl⟩ := exists_of_finished hEq (by decide)
    rw [hLaid (by decide)] at hEq
    obtain ⟨behind, rfl⟩ := exists_of_finished (List.cons.inj hEq).2
      (by rcases hd with rfl | rfl <;> decide)
    exact hText d hd behind rfl

/-- What the layout makes of the text behind white space and comments. -/
def laidRest : Text → Text
  | [] => []
  | c :: cs => finished [] (c :: cs)

/-- What is not skipped begins with something visible if a token stands there. -/
theorem visible_of_skipped {c : Char} {cs : Text} (hBlank : Lexer.isBlank c = false)
    (hVisible : ∀ d ∈ (skipped (c :: cs)).head?, Text.isWhite d = false) : Text.isWhite c = false := by
  rw [Bool.eq_false_iff]
  intro hWhite
  have hNone : comment? (c :: cs) = none :=
    Option.eq_none_iff_forall_ne_some.mpr fun p hSome => not_isWhite_of_comment? hSome hWhite
  rw [skipped_token hBlank hNone] at hVisible
  exact absurd hWhite (Bool.eq_false_iff.mp (hVisible c rfl))

theorem isBlank_of_skipped {w t : Text} (hWhite : ∀ c ∈ w, Text.isWhite c)
    (hVisible : ∀ d ∈ (skipped (w ++ t)).head?, Text.isWhite d = false) : ∀ c ∈ w, Lexer.isBlank c := by
  induction w with
  | nil => exact List.forall_mem_nil _
  | cons c cs ih =>
    obtain ⟨hFirst, hRest⟩ := List.forall_mem_cons.mp hWhite
    cases hBlank : Lexer.isBlank c with
    | true =>
      rw [List.cons_append, skipped_cons hBlank] at hVisible
      exact List.forall_mem_cons.mpr ⟨hBlank, ih hRest hVisible⟩
    | false => exact absurd hFirst (Bool.eq_false_iff.mp (visible_of_skipped hBlank hVisible))

theorem skipped_finished {t : Text} (hVisible : ∀ c ∈ (skipped t).head?, Text.isWhite c = false) {held : Text}
    (hHeld : ∀ c ∈ held, Lexer.isBlank c) : skipped (finished held t) = laidRest (skipped t) := by
  induction hLength : t.length using Nat.strong_induction_on generalizing t held with
  | _ n ih =>
  subst hLength
  cases t with
  | nil => rfl
  | cons c cs =>
    cases hBlank : Lexer.isBlank c with
    | true =>
      rw [skipped_cons hBlank] at hVisible ⊢
      rw [finished, pressTo, if_pos (isWhite_of_isBlank hBlank)]
      exact ih cs.length (Nat.lt_succ_self _) hVisible
        (List.forall_mem_append.mpr ⟨hHeld, List.forall_mem_singleton.mpr hBlank⟩) rfl
    | false =>
      have hFirst := visible_of_skipped hBlank hVisible
      have hLaid : finished held (c :: cs) = press held ++ finished [] (c :: cs) := by
        rw [finished, pressTo_cons _ hFirst, pressTo_cons _ hFirst]
        rfl
      have hPress : ∀ d ∈ press held, Lexer.isBlank d := fun d hd => hHeld d ((press_sublist held).subset hd)
      have hCons : finished [] (c :: cs) = c :: finished [] cs := pressTo_cons _ hFirst [] cs
      have hEnd := commentEnd?_finished (c :: cs)
      rw [hLaid, skipped_append hPress]
      cases hComment : comment? (c :: cs) with
      | none =>
        rw [hComment] at hEnd
        have hNone : comment? (c :: finished [] cs) = none := by
          rw [← hCons]
          exact Option.map_eq_none_iff.mp hEnd
        rw [skipped_token hBlank hComment, hCons, skipped_token hBlank hNone]
        exact hCons.symm
      | some p =>
        rw [hComment] at hEnd
        obtain ⟨q, hSome, hRest⟩ := Option.map_eq_some_iff.mp hEnd
        rw [hCons] at hSome ⊢
        rw [skipped_comment hBlank hComment] at hVisible ⊢
        rw [skipped_comment hBlank hSome, hRest]
        exact ih p.2.length (comment?_length hComment) hVisible (List.forall_mem_nil _) rfl

/-! ## The start of the text -/

/-- The layout of a text where white space is what the lexer skips: at the start only an indentation stays. -/
theorem exists_normalize {t : Text} (hVisible : ∀ c ∈ (skipped t).head?, Text.isWhite c = false) :
    normalize t = [] ∧ skipped t = [] ∨ ∃ indent c cs, normalize t = indent ++ finished [] (c :: cs) ∧
      skipped t = skipped (c :: cs) ∧ (∀ d ∈ indent, Lexer.isBlank d) ∧ Text.isWhite c = false := by
  have hWhite : ∀ c ∈ t.takeWhile Text.isWhite, Text.isWhite c := List.all_eq_true.mp List.all_takeWhile
  have hText : t.takeWhile Text.isWhite ++ t.dropWhile Text.isWhite = t := List.takeWhile_append_dropWhile
  have hBlank : ∀ c ∈ t.takeWhile Text.isWhite, Lexer.isBlank c := isBlank_of_skipped hWhite (by rwa [hText])
  have hSkipped := skipped_append hBlank (t.dropWhile Text.isWhite)
  rw [hText] at hSkipped
  cases hRest : t.dropWhile Text.isWhite with
  | nil =>
    rw [hRest] at hText hSkipped
    rw [List.append_nil] at hText
    exact .inl ⟨normalize_white (hText ▸ hWhite), hSkipped⟩
  | cons c cs =>
    have hFirst : Text.isWhite c = false := Text.head?_dropWhile Text.isWhite t c (by rw [hRest]; rfl)
    rw [hRest] at hText hSkipped
    refine .inr ⟨lastLine (t.takeWhile Text.isWhite), c, cs, ?_, hSkipped,
      fun d hd => hBlank d (mem_of_mem_lastLine hd), hFirst⟩
    have hLines := normalize_white_append hWhite hFirst cs
    rw [hText] at hLines
    rw [hLines, finished, pressTo_cons _ hFirst]
    rfl

theorem skipped_normalize {t : Text} (hVisible : ∀ c ∈ (skipped t).head?, Text.isWhite c = false) :
    skipped (normalize t) = laidRest (skipped t) := by
  obtain ⟨hNormal, hSkipped⟩ | ⟨indent, c, cs, hNormal, hSkipped, hIndent, -⟩ := exists_normalize hVisible
  · rw [hNormal, hSkipped]
    rfl
  · rw [hSkipped] at hVisible
    rw [hNormal, skipped_append hIndent, hSkipped]
    exact skipped_finished hVisible (List.forall_mem_nil _)

end GoCommands.Layout
