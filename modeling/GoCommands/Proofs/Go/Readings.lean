import GoCommands.Go.Lexer
import GoCommands.Proofs.Text.Lines

/-! # What the readers of the lexer find

A relation beside each reader, with a constructor for each way in which it succeeds. What is read splits the text, so
the relations are between what is read and the rest. The body of a literal in quotes is read here without fuel.
-/

namespace GoCommands.Go.Lexer

/-! ## Comments -/

theorem blockComment?_cons {c : Char} {cs : Text} (h : ∀ rest, c = '*' → cs = '/' :: rest → False) :
    blockComment? (c :: cs) = (blockComment? cs).map fun (body, behind) => (c :: body, behind) :=
  blockComment?.eq_3 c cs h

theorem blockComment?_append {t body rest : Text} (h : blockComment? t = some (body, rest)) : body ++ rest = t := by
  induction t using Text.commentEnd_induction generalizing body with
  | nil => cases h
  | close behind =>
    cases h
    rfl
  | cons c cs hOther ih =>
    rw [blockComment?_cons hOther] at h
    obtain ⟨⟨inner, behind⟩, hInner, hEq⟩ := Option.map_eq_some_iff.mp h
    cases hEq
    rw [List.cons_append, ih hInner]

theorem blockComment?_ne_nil {t body rest : Text} (h : blockComment? t = some (body, rest)) : body ≠ [] := by
  rintro rfl
  induction t using Text.commentEnd_induction with
  | nil => cases h
  | close => cases h
  | cons c cs hOther =>
    rw [blockComment?_cons hOther] at h
    obtain ⟨p, -, hEq⟩ := Option.map_eq_some_iff.mp h
    cases hEq

theorem blockComment?_exchange {t body rest : Text} (h : blockComment? t = some (body, rest)) (other : Text) :
    blockComment? (body ++ other) = some (body, other) := by
  induction t using Text.commentEnd_induction generalizing body with
  | nil => cases h
  | close behind =>
    cases h
    rfl
  | cons c cs hOther ih =>
    rw [blockComment?_cons hOther] at h
    obtain ⟨⟨inner, behind⟩, hInner, hEq⟩ := Option.map_eq_some_iff.mp h
    cases hEq
    -- The slash of an end that stood across the end of the body would stand in the body.
    have hNone : ∀ more, c = '*' → inner ++ other = '/' :: more → False := by
      intro more hStar hSlash
      obtain ⟨d, ds, rfl⟩ := List.exists_cons_of_ne_nil (blockComment?_ne_nil hInner)
      obtain ⟨rfl, -⟩ := List.cons.inj hSlash
      exact hOther (ds ++ rest) hStar (blockComment?_append hInner).symm
    rw [List.cons_append, blockComment?_cons hNone, ih hInner]
    rfl

/-- A comment that is read before `rest`. -/
inductive IsComment : (comment rest : Text) → Prop where
  | line {line rest : Text} : '\n' ∉ line → (∀ c ∈ rest.head?, c = '\n') → IsComment ('/' :: '/' :: line) rest
  | block {body rest : Text} : blockComment? (body ++ rest) = some (body, rest) → IsComment ('/' :: '*' :: body) rest

theorem comment?_eq_some_iff {t comment rest : Text} :
    comment? t = some (comment, rest) ↔ t = comment ++ rest ∧ IsComment comment rest := by
  constructor
  · intro h
    unfold comment? at h
    split at h
    · rename_i text
      cases h
      refine ⟨by simp only [List.cons_append, List.takeWhile_append_dropWhile], .line ?_ ?_⟩
      · intro hMem
        simpa using List.mem_takeWhile_imp hMem
      · exact fun c hc => bne_eq_false_iff_eq.mp (Text.head?_dropWhile _ text c hc)
    · obtain ⟨⟨body, behind⟩, hBody, hEq⟩ := Option.map_eq_some_iff.mp h
      cases hEq
      have hText := blockComment?_append hBody
      rw [← hText] at hBody ⊢
      exact ⟨rfl, .block hBody⟩
    · cases h
  · rintro ⟨rfl, h⟩
    cases h with
    | @line line _ hLine hRest =>
      have hAll : ∀ c ∈ line, (c != '\n') = true := fun c hc => bne_iff_ne.mpr (ne_of_mem_of_not_mem hc hLine)
      obtain ⟨hTake, hDrop⟩ := Text.cut_append hAll (fun c hc => bne_eq_false_iff_eq.mpr (hRest c hc))
      rw [List.cons_append, List.cons_append, comment?, hTake, hDrop]
    | block hBody => rw [List.cons_append, List.cons_append, comment?, hBody, Option.map_some]

namespace IsComment

variable {comment rest : Text}

theorem exists_cons (h : IsComment comment rest) : ∃ more, comment = '/' :: more := by
  cases h <;> exact ⟨_, rfl⟩

/-- What stands behind a comment can be exchanged, but for its first character. -/
theorem exchange {c : Char} (h : IsComment comment (c :: rest)) (other : Text) : IsComment comment (c :: other) := by
  cases h with
  | line hLine hRest => exact .line hLine hRest
  | block hBody => exact .block (blockComment?_exchange hBody (c :: other))

end IsComment

theorem head_of_comment? {c : Char} {t : Text} {found : Text × Text} (h : comment? (c :: t) = some found) : c = '/' := by
  obtain ⟨hText, hComment⟩ := comment?_eq_some_iff.mp h
  obtain ⟨more, hMore⟩ := hComment.exists_cons
  rw [hMore] at hText
  exact (List.cons.inj hText).1

/-! ## Literals -/

/-- The body of a literal behind its opening quote, with its closing quote, that is read before `rest`. -/
inductive IsQuoted : (body rest : Text) → Prop where
  | quote (rest : Text) : IsQuoted ['"'] rest
  | escape {e body rest : Text} : e ≠ [] → escapeLength (e ++ (body ++ rest)) = e.length → IsQuoted body rest →
      IsQuoted ('\\' :: (e ++ body)) rest
  | comment {blank comment body rest : Text} : (∀ c ∈ blank, isBlank c) → IsComment comment (body ++ rest) →
      IsQuoted body rest → IsQuoted ('\n' :: (blank ++ (comment ++ body))) rest
  | char {c : Char} {body rest : Text} : c ≠ '"' → c ≠ '\\' → c ≠ '\n' → IsQuoted body rest → IsQuoted (c :: body) rest

/-- An escape with a fixed number of digits stays in the text. -/
theorem fixedEscape_le (n : Nat) (t : Text) :
    (if (t.take n).length == n && (t.take n).all isHex then n + 1 else 0) ≤ t.length + 1 := by
  split
  · rename_i hFound
    rw [Bool.and_eq_true, beq_iff_eq, List.length_take] at hFound
    omega
  · exact Nat.zero_le _

theorem escapeLength_le (t : Text) : escapeLength t ≤ t.length := by
  unfold escapeLength
  split
  · exact Nat.zero_le _
  · rename_i rest
    have hTake := (List.takeWhile_prefix (l := rest) isHex).length_le
    split
    · exact Nat.zero_le _
    · exact Nat.zero_le _
    · rw [List.length_cons]
      omega
  · exact fixedEscape_le 4 _
  · exact fixedEscape_le 8 _
  · exact Nat.succ_le_succ (Nat.zero_le _)

theorem isQuoted_of_quoted? {fuel : Nat} {t body rest : Text} (h : quoted? fuel t = some (body, rest)) :
    t = body ++ rest ∧ IsQuoted body rest := by
  induction fuel generalizing t body with
  | zero => cases h
  | succ fuel ih =>
    unfold quoted? at h
    split at h
    · cases h
    · cases h
      exact ⟨rfl, .quote _⟩
    · rename_i t
      split at h
      · cases h
      · rename_i hSome
        obtain ⟨⟨inner, behind⟩, hInner, hEq⟩ := Option.map_eq_some_iff.mp h
        cases hEq
        obtain ⟨hText, hQuoted⟩ := ih hInner
        have hLength : (t.take (escapeLength t)).length = escapeLength t :=
          List.length_take_of_le (escapeLength_le t)
        have hSplit : t.take (escapeLength t) ++ (inner ++ rest) = t := by
          rw [← hText, List.take_append_drop]
        refine ⟨by simp only [List.cons_append, List.append_assoc, hSplit], .escape ?_ ?_ hQuoted⟩
        · rw [← List.length_pos_iff, hLength]
          exact Nat.pos_of_ne_zero hSome
        · rw [hSplit, hLength]
    · rename_i t
      split at h
      · rename_i comment behind hComment
        obtain ⟨⟨inner, after⟩, hInner, hEq⟩ := Option.map_eq_some_iff.mp h
        cases hEq
        obtain ⟨rfl, hQuoted⟩ := ih hInner
        obtain ⟨hText, hIsComment⟩ := comment?_eq_some_iff.mp hComment
        have hBlank : ∀ c ∈ t.takeWhile isBlank, isBlank c := fun c hc => List.mem_takeWhile_imp hc
        have hBreak : ('\n' :: t).takeWhile isBlank = '\n' :: t.takeWhile isBlank := rfl
        have hDrop : t.dropWhile isBlank = comment ++ (inner ++ rest) := hText
        rw [hBreak, List.cons_append, List.cons_append, List.append_assoc]
        refine ⟨?_, .comment hBlank hIsComment hQuoted⟩
        rw [List.cons_append, List.append_assoc, List.append_assoc, ← hDrop, List.takeWhile_append_dropWhile]
      · cases h
    · rename_i hQuote hSlash hBreak
      obtain ⟨⟨inner, behind⟩, hInner, hEq⟩ := Option.map_eq_some_iff.mp h
      cases hEq
      obtain ⟨rfl, hQuoted⟩ := ih hInner
      exact ⟨rfl, .char hQuote hSlash hBreak hQuoted⟩

namespace IsQuoted

variable {body rest : Text}

/-- The end of a literal is its quote. -/
theorem exists_concat (h : IsQuoted body rest) : ∃ inner, body = inner ++ ['"'] := by
  induction h with
  | quote => exact ⟨[], rfl⟩
  | @escape e body rest _ _ _ ih =>
    obtain ⟨inner, rfl⟩ := ih
    exact ⟨'\\' :: (e ++ inner), by rw [List.cons_append, List.append_assoc]⟩
  | @comment blank comment body rest _ _ _ ih =>
    obtain ⟨inner, rfl⟩ := ih
    exact ⟨'\n' :: (blank ++ (comment ++ inner)), by simp only [List.cons_append, List.append_assoc]⟩
  | @char c body rest _ _ _ _ ih =>
    obtain ⟨inner, rfl⟩ := ih
    exact ⟨c :: inner, rfl⟩

theorem exists_cons (h : IsQuoted body rest) : ∃ c cs, body = c :: cs := by
  cases h <;> exact ⟨_, _, rfl⟩

/-- Each step reads a character of the body, so fuel for the body is enough. -/
theorem quoted? (h : IsQuoted body rest) {fuel : Nat} (hFuel : body.length ≤ fuel) :
    Lexer.quoted? fuel (body ++ rest) = some (body, rest) := by
  induction h generalizing fuel with
  | quote =>
    obtain ⟨fuel, rfl⟩ := Nat.exists_eq_add_of_le' hFuel
    rfl
  | @escape e body rest hNonempty hEscape _ ih =>
    obtain ⟨fuel, rfl⟩ := Nat.exists_eq_add_of_le' (Nat.le_trans (Nat.le_add_left 1 _) hFuel)
    have hShorter : body.length ≤ fuel := by
      rw [List.length_cons, List.length_append] at hFuel
      omega
    have hSome := List.length_pos_iff.mpr hNonempty
    rw [List.cons_append, List.append_assoc, Lexer.quoted?, hEscape]
    split
    · omega
    · rw [List.drop_left, ih hShorter, List.take_left]
      rfl
  | @comment blank comment body rest hBlank hComment _ ih =>
    obtain ⟨fuel, rfl⟩ := Nat.exists_eq_add_of_le' (Nat.le_trans (Nat.le_add_left 1 _) hFuel)
    have hShorter : body.length ≤ fuel := by
      rw [List.length_cons, List.length_append, List.length_append] at hFuel
      omega
    have hAll : ∀ c ∈ '\n' :: blank, isBlank c := List.forall_mem_cons.mpr ⟨by decide, hBlank⟩
    have hStop : ∀ c ∈ (comment ++ (body ++ rest)).head?, isBlank c = false := by
      obtain ⟨more, rfl⟩ := hComment.exists_cons
      rintro c ⟨⟩
      rfl
    obtain ⟨hTake, hDrop⟩ := Text.cut_append hAll hStop
    have hText : '\n' :: (blank ++ (comment ++ body)) ++ rest = '\n' :: blank ++ (comment ++ (body ++ rest)) := by
      simp only [List.cons_append, List.append_assoc]
    rw [hText, List.cons_append, Lexer.quoted?, ← List.cons_append, hTake, hDrop,
      comment?_eq_some_iff.mpr ⟨rfl, hComment⟩]
    simp only [ih hShorter, Option.map_some, List.cons_append, List.append_assoc]
  | char hQuote hSlash hBreak _ ih =>
    obtain ⟨fuel, rfl⟩ := Nat.exists_eq_add_of_le' (Nat.le_trans (Nat.le_add_left 1 _) hFuel)
    rw [List.cons_append, Lexer.quoted?, ih (Nat.le_of_succ_le_succ hFuel), Option.map_some]
    · exact hQuote
    · exact hSlash
    · exact hBreak

end IsQuoted

theorem string?_eq_some_iff {t literal rest : Text} : string? t = some (literal, rest) ↔
    t = literal ++ rest ∧ ∃ body, literal = '"' :: body ∧ IsQuoted body rest := by
  constructor
  · intro h
    unfold string? at h
    split at h
    · obtain ⟨⟨body, behind⟩, hBody, hEq⟩ := Option.map_eq_some_iff.mp h
      cases hEq
      obtain ⟨rfl, hQuoted⟩ := isQuoted_of_quoted? hBody
      exact ⟨rfl, body, rfl, hQuoted⟩
    · cases h
  · rintro ⟨rfl, body, rfl, hQuoted⟩
    have hFuel : body.length ≤ (body ++ rest).length + 1 :=
      Nat.le_succ_of_le (List.prefix_append body rest).length_le
    rw [List.cons_append, string?, hQuoted.quoted? hFuel, Option.map_some]

theorem rawString?_eq_some_iff {t literal rest : Text} : rawString? t = some (literal, rest) ↔
    t = literal ++ rest ∧ ∃ inner, literal = '\x60' :: inner ++ ['\x60'] ∧ '\x60' ∉ inner := by
  constructor
  · intro h
    unfold rawString? at h
    split at h
    · rename_i body
      split at h
      · rename_i quote behind hDrop
        cases h
        have hQuote : quote = '\x60' := bne_eq_false_iff_eq.mp (Text.head?_dropWhile _ body quote (by rw [hDrop]; rfl))
        have hBody := List.takeWhile_append_dropWhile (p := (· != '\x60')) (l := body)
        rw [hDrop, hQuote] at hBody
        refine ⟨?_, _, rfl, ?_⟩
        · rw [List.append_assoc, List.singleton_append, List.cons_append, hBody]
        · intro hMem
          simpa using List.mem_takeWhile_imp hMem
      · cases h
    · cases h
  · rintro ⟨rfl, inner, rfl, hNone⟩
    obtain ⟨hTake, hDrop⟩ := Text.cut_append_cons hNone rest
    rw [List.append_assoc, List.singleton_append, List.cons_append, rawString?, hTake, hDrop]

/-! ## Tokens -/

/-- A number or a symbol comes first. -/
def StartsPlain (t : Text) : Prop := ∃ c cs, t = c :: cs ∧ Text.isIdentifierStart c = false ∧ c ∉ ['"', '\x60', '\'']

/-- The token at the start of a text, and the text behind it. -/
inductive TokenAt : Text → Token → Text → Prop where
  | keyword {c : Char} {cs : Text} {k : Keyword} : Text.isIdentifierStart c →
      Keyword.ofText? (c :: cs.takeWhile Text.isIdentifierPart) = some k →
      TokenAt (c :: cs) (.keyword k) (cs.dropWhile Text.isIdentifierPart)
  | word {c : Char} {cs : Text} : Text.isIdentifierStart c →
      Keyword.ofText? (c :: cs.takeWhile Text.isIdentifierPart) = none →
      TokenAt (c :: cs) (.word (c :: cs.takeWhile Text.isIdentifierPart)) (cs.dropWhile Text.isIdentifierPart)
  | string {t literal rest : Text} : string? t = some (literal, rest) → TokenAt t (.string literal) rest
  | rawString {t literal rest : Text} : rawString? t = some (literal, rest) → TokenAt t (.rawString literal) rest
  | rune {t : Text} : runeLength ('\'' :: t) ≠ 0 →
      TokenAt ('\'' :: t) (.rune (('\'' :: t).take (runeLength ('\'' :: t)))) (('\'' :: t).drop (runeLength ('\'' :: t)))
  | number {t : Text} : StartsPlain t → numberLength t ≠ 0 →
      TokenAt t (.number (t.take (numberLength t))) (t.drop (numberLength t))
  | symbol {t rest : Text} {s : Symbol} : StartsPlain t → numberLength t = 0 → Symbol.read? t = some (s, rest) →
      TokenAt t (.symbol s) rest

theorem tokenAt_of_token? {t rest : Text} {token : Token} (h : token? t = some (token, rest)) :
    TokenAt t token rest := by
  unfold token? at h
  split at h
  · cases h
  rename_i c cs
  split at h
  · rename_i hStart
    dsimp only at h
    split at h <;> cases h
    · exact .keyword hStart ‹_›
    · exact .word hStart ‹_›
  rename_i hStart
  split at h
  · obtain ⟨⟨literal, behind⟩, hLiteral, hEq⟩ := Option.map_eq_some_iff.mp h
    cases hEq
    exact .string hLiteral
  rename_i hString
  split at h
  · obtain ⟨⟨literal, behind⟩, hLiteral, hEq⟩ := Option.map_eq_some_iff.mp h
    cases hEq
    exact .rawString hLiteral
  rename_i hRaw
  split at h
  · rename_i hRune
    obtain rfl := beq_iff_eq.mp hRune
    split at h <;> cases h
    exact .rune ‹_›
  rename_i hRune
  have hPlain : StartsPlain (c :: cs) := by
    refine ⟨c, cs, rfl, Bool.eq_false_iff.mpr hStart, ?_⟩
    simp only [beq_iff_eq] at hString hRaw hRune
    simp only [List.mem_cons, List.not_mem_nil, or_false, not_or]
    exact ⟨hString, hRaw, hRune⟩
  split at h
  · obtain ⟨⟨s, behind⟩, hSymbol, hEq⟩ := Option.map_eq_some_iff.mp h
    cases hEq
    exact .symbol hPlain ‹_› hSymbol
  · cases h
    exact .number hPlain ‹_›

/-! ## Lexemes -/

theorem lexemesWithin_eq_some {fuel : Nat} {t : Text} {ls : List Lexeme} (h : lexemesWithin (fuel + 1) t = some ls) :
    ls = [⟨(trivia (fuel + 1) t).1, .eof⟩] ∧ (trivia (fuel + 1) t).2 = [] ∨
      ∃ token behind more, token? (trivia (fuel + 1) t).2 = some (token, behind) ∧
        lexemesWithin fuel behind = some more ∧ ls = ⟨(trivia (fuel + 1) t).1, token⟩ :: more := by
  rw [lexemesWithin] at h
  split at h
  · rename_i before hTrivia
    cases h
    rw [hTrivia]
    exact .inl ⟨rfl, rfl⟩
  · rename_i before rest hTrivia
    simp only [Option.bind_eq_bind, Option.bind_eq_some_iff, Option.some.injEq] at h
    obtain ⟨⟨token, behind⟩, hToken, more, hMore, rfl⟩ := h
    rw [hTrivia]
    exact .inr ⟨token, behind, more, hToken, hMore, rfl⟩

end GoCommands.Go.Lexer
