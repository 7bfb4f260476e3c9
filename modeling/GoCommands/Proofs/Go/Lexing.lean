import GoCommands.Proofs.Go.Words

/-! # Lexemes that are read back

Lexemes can be written so that none runs into the next: words are followed by white space or by a
symbol, and a comment ends with its line. The lexer gives back such lexemes from their text.
-/

namespace GoCommands.Go

/-- White space between two tokens, with comments that each end with their line. -/
def Spaced : List Trivia → Prop
  | [] => True
  | [.blank b] => b ≠ [] ∧ ∀ c ∈ b, Lexer.isBlank c
  | .blank b :: .comment c :: more => (b ≠ [] ∧ ∀ c ∈ b, Lexer.isBlank c) ∧ Spaced (.comment c :: more)
  | .blank _ :: .blank _ :: _ => False
  | .comment c :: .blank b :: more =>
    (∃ line, c = '/' :: '/' :: line ∧ '\n' ∉ line) ∧ b.head? = some '\n' ∧ Spaced (.blank b :: more)
  | .comment _ :: _ => False

/-- Brackets and the dot, which are read alone whatever comes next to a bracket. -/
def Symbol.IsSingle (s : Symbol) : Prop := s ∈ [parenOpen, parenClose, braceOpen, braceClose, dot]

/-- A word or a keyword comes first, with nothing before it. -/
def StartsWithWord : List Lexeme → Prop
  | ⟨[], .word _⟩ :: _ | ⟨[], .keyword _⟩ :: _ => True
  | _ => False

namespace Token

/-- A token of a kind that is read back. -/
def Proper : Token → Prop
  | keyword _ => True
  | word w => IsWord w
  | string literal => literal.head? = some '"' ∧
      ∀ rest, Lexer.string? (literal ++ rest) = some (literal, rest)
  | symbol s => s.IsSingle
  | _ => False

/-- The token does not run into the next lexemes. -/
def Apart : Token → List Lexeme → Prop
  | keyword _, rest | word _, rest => ¬ StartsWithWord rest
  | symbol .dot, rest => StartsWithWord rest
  | _, _ => True

end Token

/-- The lexemes of a whole source text, written one apart from the other. -/
def Written : List Lexeme → Prop
  | [] => False
  | l :: rest =>
    Spaced l.before ∧
      (l.token = .eof ∧ rest = [] ∨ l.token.Proper ∧ l.token.Apart rest ∧ Written rest)

namespace Written

variable {before : List Trivia} {rest : List Lexeme} (hSpaced : Spaced before)
include hSpaced

theorem eof : Written [⟨before, .eof⟩] := ⟨hSpaced, .inl ⟨rfl, rfl⟩⟩

theorem keyword {k : Keyword} (hNext : ¬ StartsWithWord rest) (hRest : Written rest) :
    Written (⟨before, .keyword k⟩ :: rest) :=
  ⟨hSpaced, .inr ⟨trivial, hNext, hRest⟩⟩

theorem word {w : Text} (hWord : IsWord w) (hNext : ¬ StartsWithWord rest) (hRest : Written rest) :
    Written (⟨before, .word w⟩ :: rest) :=
  ⟨hSpaced, .inr ⟨hWord, hNext, hRest⟩⟩

theorem string {literal : Text} (hLiteral : (Token.string literal).Proper) (hRest : Written rest) :
    Written (⟨before, .string literal⟩ :: rest) :=
  ⟨hSpaced, .inr ⟨hLiteral, trivial, hRest⟩⟩

theorem bracket {s : Symbol} (hRest : Written rest)
    (hBracket : s ∈ [Symbol.parenOpen, .parenClose, .braceOpen, .braceClose] := by decide) :
    Written (⟨before, .symbol s⟩ :: rest) := by
  simp only [List.mem_cons, List.not_mem_nil, or_false] at hBracket
  rcases hBracket with rfl | rfl | rfl | rfl <;>
    exact ⟨hSpaced, .inr ⟨by simp [Token.Proper, Symbol.IsSingle], trivial, hRest⟩⟩

theorem dot (hNext : StartsWithWord rest) (hRest : Written rest) : Written (⟨before, .symbol .dot⟩ :: rest) :=
  ⟨hSpaced, .inr ⟨by simp [Token.Proper, Symbol.IsSingle], hNext, hRest⟩⟩

end Written

def textOf (ls : List Lexeme) : Text := ls.flatMap Lexeme.text

namespace Lexer

/-- A token begins here, or the text ends. -/
def Visible (t : Text) : Prop := ∀ c ∈ t.head?, isBlank c = false ∧ c ≠ '/'

theorem trivia_visible {t : Text} (h : Visible t) (fuel : Nat) : trivia fuel t = ([], t) := by
  cases fuel with
  | zero => rfl
  | succ fuel =>
    cases t with
    | nil => rfl
    | cons c cs =>
      obtain ⟨hBlank, hSlash⟩ := h c rfl
      have hComment : comment? (c :: cs) = none :=
        Option.eq_none_iff_forall_ne_some.mpr fun _ hSome => hSlash (head_of_comment? hSome)
      simp [trivia, hBlank, hComment]

theorem trivia_blank {b t : Text} (hNonempty : b ≠ []) (hBlank : ∀ c ∈ b, isBlank c)
    (hNext : ∀ c ∈ t.head?, isBlank c = false) (fuel : Nat) :
    trivia (fuel + 1) (b ++ t) = (.blank b :: (trivia fuel t).1, (trivia fuel t).2) := by
  obtain ⟨c, cs, rfl⟩ := List.exists_cons_of_ne_nil hNonempty
  obtain ⟨hc, hcs⟩ := List.forall_mem_cons.mp hBlank
  obtain ⟨hTake, hDrop⟩ := Text.cut_append hcs hNext
  rw [List.cons_append, trivia, if_pos hc, hTake, hDrop]

theorem trivia_comment {line t : Text} (hLine : '\n' ∉ line) (hNext : t.head? = some '\n') (fuel : Nat) :
    trivia (fuel + 1) ('/' :: '/' :: line ++ t) =
      (.comment ('/' :: '/' :: line) :: (trivia fuel t).1, (trivia fuel t).2) := by
  have hRest : ∀ c ∈ t.head?, c = '\n' := fun c hc => Option.some.inj (hc.symm.trans hNext)
  have hComment : comment? ('/' :: '/' :: line ++ t) = some ('/' :: '/' :: line, t) :=
    comment?_eq_some_iff.mpr ⟨rfl, .line hLine hRest⟩
  rw [List.cons_append] at hComment ⊢
  rw [trivia, if_neg (by decide), hComment]

theorem trivia_spaced {before : List Trivia} (h : Spaced before) {t : Text} (hVisible : Visible t)
    (fuel : Nat) (hFuel : before.length ≤ fuel) :
    trivia fuel (before.flatMap Trivia.text ++ t) = (before, t) := by
  induction before using Spaced.induct generalizing fuel with
  | case1 => exact trivia_visible hVisible fuel
  | case2 b =>
    obtain ⟨fuel, rfl⟩ := Nat.exists_eq_add_of_le' hFuel
    have hNext : ∀ c ∈ t.head?, isBlank c = false := fun c hc => (hVisible c hc).1
    simp only [List.flatMap_singleton, Trivia.text]
    rw [List.length_singleton, trivia_blank h.1 h.2 hNext, trivia_visible hVisible]
  | case3 b c more ih =>
    obtain ⟨⟨hNonempty, hBlank⟩, hMore⟩ := h
    obtain ⟨fuel, rfl⟩ := Nat.exists_eq_add_of_le' (Nat.le_trans (Nat.le_add_left 1 _) hFuel)
    have hNext : ∀ d ∈ (((Trivia.comment c) :: more).flatMap Trivia.text ++ t).head?,
        isBlank d = false := by
      cases more with
      | nil => cases hMore
      | cons b more =>
        cases b with
        | comment => cases hMore
        | blank b =>
          obtain ⟨⟨line, rfl, -⟩, -⟩ := hMore
          intro d hd
          cases hd
          decide
    rw [List.flatMap_cons, List.append_assoc, Trivia.text, trivia_blank hNonempty hBlank hNext,
      ih hMore fuel (Nat.le_of_succ_le_succ hFuel)]
  | case4 => cases h
  | case5 c b more ih =>
    obtain ⟨⟨line, rfl, hLine⟩, hBreak, hMore⟩ := h
    obtain ⟨fuel, rfl⟩ := Nat.exists_eq_add_of_le' (Nat.le_trans (Nat.le_add_left 1 _) hFuel)
    have hNext : (((Trivia.blank b) :: more).flatMap Trivia.text ++ t).head? = some '\n' := by
      cases b with
      | nil => cases hBreak
      | cons d ds => exact hBreak
    rw [List.flatMap_cons, List.append_assoc, Trivia.text, trivia_comment hLine hNext,
      ih hMore fuel (Nat.le_of_succ_le_succ hFuel)]
  | case6 c more hOther =>
    cases more with
    | nil => cases h
    | cons b more =>
      cases b with
      | blank b => exact absurd rfl (hOther b more)
      | comment => cases h

/-- The text goes on with something that is no part of a word. -/
def Ends (t : Text) : Prop := ∀ c ∈ t.head?, Text.isIdentifierPart c = false

theorem token?_word {w t : Text} (hWord : IsWord w) (hEnds : Ends t) :
    token? (w ++ t) = some (.word w, t) := by
  obtain ⟨⟨c, cs, rfl, hStart, hPart⟩, hKeyword⟩ := hWord
  obtain ⟨hTake, hDrop⟩ := Text.cut_append hPart hEnds
  rw [List.cons_append, token?, if_pos hStart, hTake, hDrop]
  simp only [hKeyword]

theorem token?_keyword (k : Keyword) {t : Text} (hEnds : Ends t) :
    token? (k.text ++ t) = some (.keyword k, t) := by
  have hNonempty : k.text ≠ [] := by cases k <;> decide
  have hFirst : k.text.head?.all Text.isIdentifierStart := by cases k <;> decide
  have hAll : k.text.tail.all Text.isIdentifierPart := by cases k <;> decide
  obtain ⟨c, cs, hText⟩ := List.exists_cons_of_ne_nil hNonempty
  rw [hText] at hFirst hAll
  have hStart : Text.isIdentifierStart c := hFirst
  have hPart : ∀ d ∈ cs, Text.isIdentifierPart d := List.all_eq_true.mp hAll
  have hKeyword : Keyword.ofText? k.text = some k := by
    cases k <;> decide
  obtain ⟨hTake, hDrop⟩ := Text.cut_append hPart hEnds
  rw [hText] at hKeyword ⊢
  rw [List.cons_append, token?, if_pos hStart, hTake, hDrop]
  simp only [hKeyword]

theorem not_digit_of_isIdentifierStart {c : Char} (h : Text.isIdentifierStart c) :
    isDecimal c = false ∧ c ≠ '.' := by
  by_cases hSmall : c.toNat < 128
  · refine Text.ascii_induction
      (p := fun c => Text.isIdentifierStart c → isDecimal c = false ∧ c ≠ '.') ?_ c hSmall h
    decide
  · constructor
    · rw [Bool.eq_false_iff]
      intro hDigit
      simp only [isDecimal, Char.isDigit, Bool.and_eq_true, decide_eq_true_eq] at hDigit
      have hBound : c.toNat ≤ 57 := hDigit.2
      omega
    · rintro rfl
      exact hSmall (by decide)

theorem token?_bracket {s : Symbol} (h : s ∈ [Symbol.parenOpen, .parenClose, .braceOpen, .braceClose])
    (t : Text) : token? (s.text ++ t) = some (.symbol s, t) := by
  simp only [List.mem_cons, List.not_mem_nil, or_false] at h
  rcases h with rfl | rfl | rfl | rfl <;> rfl

theorem token?_dot {c : Char} (h : Text.isIdentifierStart c) (t : Text) :
    token? ('.' :: c :: t) = some (.symbol .dot, c :: t) := by
  obtain ⟨hDigit, hDot⟩ := not_digit_of_isIdentifierStart h
  have hNumber : numberLength ('.' :: c :: t) = 0 := by
    simp [numberLength, integer, decimalInteger, zeroInteger, markedInteger, decimalFloat, hexFloat, digits,
      hDigit, show isDecimal '.' = false by decide]
  have hSymbol : Symbol.read? ('.' :: c :: t) = some (.dot, c :: t) := by
    rw [Symbol.read?]
    rintro r hEq
    exact hDot (List.cons.inj hEq).1
  rw [token?, if_neg (by decide), if_neg (by decide), if_neg (by decide), if_neg (by decide)]
  simp only [hNumber, hSymbol, Option.map_some]

theorem token?_string {literal : Text} (hQuote : literal.head? = some '"') {t : Text}
    (h : string? (literal ++ t) = some (literal, t)) :
    token? (literal ++ t) = some (.string literal, t) := by
  obtain ⟨cs, rfl⟩ : ∃ cs, literal = '"' :: cs := by
    cases literal with
    | nil => cases hQuote
    | cons c cs => exact ⟨cs, by cases hQuote; rfl⟩
  rw [List.cons_append] at h ⊢
  rw [token?, if_neg (by decide), if_pos (by decide), h, Option.map_some]

theorem isWhite_of_isBlank {c : Char} (h : isBlank c) : Text.isWhite c := by
  simp only [isBlank, Bool.or_eq_true, Bool.and_eq_true, decide_eq_true_eq, beq_iff_eq] at h
  rcases h with ⟨hLow, hHigh⟩ | rfl
  · simp [Text.isWhite, hLow, hHigh, show c.toNat < 128 by omega]
  · decide

theorem not_isIdentifierPart_of_isBlank {c : Char} (h : isBlank c) : Text.isIdentifierPart c = false := by
  rw [Bool.eq_false_iff]
  intro hPart
  exact Text.not_isWhite_of_isIdentifierPart hPart (isWhite_of_isBlank h)

/-- The first character of a token that is no word and no keyword. -/
theorem head_token_of_not_word {token : Token} (h : token.Proper) :
    StartsWithWord [⟨[], token⟩] ∨ ∃ c cs, token.text = c :: cs ∧ c ∈ ['(', ')', '\x7b', '\x7d', '.', '"'] := by
  cases token with
  | keyword | word => exact .inl trivial
  | string literal =>
    cases literal with
    | nil => cases h.1
    | cons c cs => exact .inr ⟨c, cs, rfl, by cases h.1; decide⟩
  | symbol s =>
    simp only [Token.Proper, Symbol.IsSingle, List.mem_cons, List.not_mem_nil, or_false] at h
    rcases h with rfl | rfl | rfl | rfl | rfl <;> exact .inr ⟨_, _, rfl, by decide⟩
  | number | rune | rawString | eof => cases h

theorem head_of_startsWithWord {ls : List Lexeme} (h : Written ls) (hWord : StartsWithWord ls) :
    ∃ c cs, textOf ls = c :: cs ∧ Text.isIdentifierStart c := by
  cases ls with
  | nil => cases h
  | cons l rest =>
    obtain ⟨before, token⟩ := l
    cases before with
    | cons => cases hWord
    | nil =>
      cases token with
      | keyword k =>
        cases k <;> exact ⟨_, _, rfl, by decide⟩
      | word w =>
        obtain ⟨-, ⟨hEof, -⟩ | ⟨hProper, -⟩⟩ := h
        · cases hEof
        · obtain ⟨c, cs, rfl, hStart, -⟩ := IsWord.shape hProper
          exact ⟨c, _, rfl, hStart⟩
      | number | rune | string | rawString | symbol | eof => cases hWord

/-- A token is not empty, and nothing that is skipped. -/
theorem first_of_proper {token : Token} (h : token.Proper) :
    ∃ c cs, token.text = c :: cs ∧ isBlank c = false ∧ c ≠ '/' := by
  cases token with
  | keyword k =>
    cases k <;> exact ⟨_, _, rfl, by decide⟩
  | word w =>
    obtain ⟨c, cs, rfl, hStart, -⟩ := IsWord.shape h
    refine ⟨c, cs, rfl, ?_, ?_⟩
    · rw [Bool.eq_false_iff]
      intro hBlank
      exact Text.not_isWhite_of_isIdentifierStart hStart (isWhite_of_isBlank hBlank)
    · rintro rfl
      exact absurd hStart (by decide)
  | number | rune | rawString | eof => cases h
  | string | symbol =>
    obtain hWord | ⟨c, cs, hText, hFirst⟩ := head_token_of_not_word h
    · cases hWord
    · refine ⟨c, cs, hText, ?_⟩
      simp only [List.mem_cons, List.not_mem_nil, or_false] at hFirst
      rcases hFirst with rfl | rfl | rfl | rfl | rfl | rfl <;> decide

/-- A word ends where other lexemes begin. -/
theorem ends_of_written {ls : List Lexeme} (h : Written ls) (hWord : ¬ StartsWithWord ls) :
    Ends (textOf ls) := by
  cases ls with
  | nil => cases h
  | cons l rest =>
    obtain ⟨before, token⟩ := l
    obtain ⟨hSpaced, hToken⟩ := h
    intro d hd
    -- The first character is one of the trivia if there are any: a blank or the slash of a comment.
    cases before with
    | nil =>
      rcases hToken with ⟨rfl, rfl⟩ | ⟨hProper, -⟩
      · cases hd
      · obtain hStart | ⟨c, cs, hText, hFirst⟩ := head_token_of_not_word hProper
        · exact absurd hStart (by cases token <;> exact hWord)
        · simp only [textOf, List.flatMap_cons, Lexeme.text, List.flatMap_nil, List.nil_append, hText] at hd
          cases hd
          simp only [List.mem_cons, List.not_mem_nil, or_false] at hFirst
          rcases hFirst with rfl | rfl | rfl | rfl | rfl | rfl <;> decide
    | cons trivia more =>
      cases trivia with
      | blank b =>
        have hBlank : b ≠ [] ∧ ∀ c ∈ b, isBlank c := by
          cases more with
          | nil => exact hSpaced
          | cons next more =>
            cases next with
            | blank => cases hSpaced
            | comment => exact hSpaced.1
        obtain ⟨c, cs, rfl⟩ := List.exists_cons_of_ne_nil hBlank.1
        cases hd
        exact not_isIdentifierPart_of_isBlank (hBlank.2 d List.mem_cons_self)
      | comment text =>
        cases more with
        | nil => cases hSpaced
        | cons next more =>
          cases next with
          | blank =>
            obtain ⟨⟨line, rfl, -⟩, -⟩ := hSpaced
            cases hd
            decide
          | comment => cases hSpaced

theorem token?_text {token : Token} (hProper : token.Proper) {ls : List Lexeme} (hApart : token.Apart ls)
    (h : Written ls) : token? (token.text ++ textOf ls) = some (token, textOf ls) := by
  cases token with
  | keyword k => exact token?_keyword k (ends_of_written h hApart)
  | word w => exact token?_word hProper (ends_of_written h hApart)
  | string literal => exact token?_string hProper.1 (hProper.2 _)
  | symbol s =>
    simp only [Token.Proper, Symbol.IsSingle, List.mem_cons, List.not_mem_nil, or_false] at hProper
    rcases hProper with rfl | rfl | rfl | rfl | rfl
    · exact token?_bracket (s := .parenOpen) (by decide) _
    · exact token?_bracket (s := .parenClose) (by decide) _
    · exact token?_bracket (s := .braceOpen) (by decide) _
    · exact token?_bracket (s := .braceClose) (by decide) _
    · obtain ⟨c, cs, hText, hStart⟩ := head_of_startsWithWord h hApart
      rw [hText]
      exact token?_dot hStart cs
  | number | rune | rawString | eof => cases hProper

theorem length_le_text {before : List Trivia} (h : Spaced before) :
    before.length ≤ (before.flatMap Trivia.text).length := by
  induction before using Spaced.induct with
  | case1 => exact Nat.le_refl 0
  | case2 b =>
    have hPos := List.length_pos_iff.mpr h.1
    simpa [Trivia.text] using Nat.succ_le_of_lt hPos
  | case3 b c more ih =>
    have hPos := List.length_pos_iff.mpr h.1.1
    have hMore := ih h.2
    simp only [List.flatMap_cons, List.length_append, List.length_cons, Trivia.text] at hMore ⊢
    omega
  | case4 => cases h
  | case5 c b more ih =>
    obtain ⟨⟨line, rfl, -⟩, -, hMore⟩ := h
    have hMore := ih hMore
    simp only [List.flatMap_cons, List.length_append, List.length_cons, Trivia.text] at hMore ⊢
    omega
  | case6 c more hOther =>
    cases more with
    | nil => cases h
    | cons b more =>
      cases b with
      | blank b => exact absurd rfl (hOther b more)
      | comment => cases h

theorem lexemesWithin_textOf {ls : List Lexeme} (h : Written ls) (fuel : Nat)
    (hFuel : (textOf ls).length < fuel) : lexemesWithin fuel (textOf ls) = some ls := by
  induction ls generalizing fuel with
  | nil => cases h
  | cons l rest ih =>
    obtain ⟨before, token⟩ := l
    obtain ⟨hBlanks, hToken⟩ := h
    have hSpaced : Spaced before := hBlanks
    have hText : textOf (⟨before, token⟩ :: rest) =
        before.flatMap Trivia.text ++ (token.text ++ textOf rest) := by
      simp only [textOf, List.flatMap_cons, Lexeme.text, List.append_assoc]
    have hBefore : before.length ≤ (before.flatMap Trivia.text).length := length_le_text hSpaced
    obtain ⟨fuel, rfl⟩ := Nat.exists_eq_add_of_le' (Nat.lt_of_le_of_lt (Nat.zero_le _) hFuel)
    rw [hText] at hFuel ⊢
    simp only [List.length_append] at hFuel
    rw [lexemesWithin]
    rcases hToken with ⟨rfl, rfl⟩ | ⟨hProper, hApart, hRest⟩
    · have hVisible : Visible [] := by rintro c ⟨⟩
      have hTrivia := trivia_spaced hSpaced hVisible (fuel + 1) (by omega)
      simp only [Token.text, textOf, List.flatMap_nil, List.nil_append, hTrivia]
    · obtain ⟨c, cs, hToken, hFirst⟩ := first_of_proper hProper
      have hVisible : Visible (token.text ++ textOf rest) := by
        rw [hToken]
        rintro d ⟨⟩
        exact hFirst
      have hRead := token?_text hProper hApart hRest
      have hMore := ih hRest fuel (by rw [hToken, List.length_cons] at hFuel; omega)
      rw [trivia_spaced hSpaced hVisible (fuel + 1) (by omega)]
      rw [hToken, List.cons_append] at hRead ⊢
      simp only [hRead, hMore, Option.bind_eq_bind, Option.bind_some]

end Lexer

/-- Lexemes that are written apart are read back from their text. -/
theorem lexemes_textOf {ls : List Lexeme} (h : Written ls) (hMark : withoutMark (textOf ls) = textOf ls) :
    lexemes (textOf ls) = some ls := by
  rw [lexemes, hMark]
  exact Lexer.lexemesWithin_textOf h _ (Nat.lt_succ_self _)

end GoCommands.Go
