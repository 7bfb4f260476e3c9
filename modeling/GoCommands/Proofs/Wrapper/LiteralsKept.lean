import GoCommands.Proofs.Wrapper.LaidTokens
import GoCommands.Proofs.Wrapper.SteadyText

/-! # Literals of a formatted source

The layout works on lines and does not know where literals begin, so white space in a literal of several lines is
trimmed as everywhere. A formatted source reads back with the same strings exactly if no literal has such white space.
-/

namespace GoCommands.Layout

open Go Go.Lexer

def isLiteral : Token → Bool
  | .string _ | .rawString _ => true
  | _ => false

/-- A literal by its kind and its value. -/
def reading : Token → Bool × Option Text
  | .rawString literal => (true, stringValue (.rawString literal))
  | token => (false, stringValue token)

/-- The string literals of a source in their order. -/
def readings (ls : List Lexeme) : List (Bool × Option Text) := (stringLiterals ls).map reading

/-- The layout keeps the value of a literal. Carriage returns in a literal in backquotes are not part of the value. -/
def SteadyLiteral : Token → Prop
  | .string literal => Steady literal
  | .rawString literal => Steady (literal.filter (· != '\r'))
  | _ => True

instance (token : Token) : Decidable (SteadyLiteral token) := by
  cases token <;> (unfold SteadyLiteral; infer_instance)

/-! ## Values of literals -/

theorem bind_before? {quote : Char} (inner : Text) :
    (Text.after? [quote] (quote :: inner ++ [quote])).bind (Text.before? [quote]) = some inner := by
  have hAfter : Text.after? [quote] (quote :: inner ++ [quote]) = some (inner ++ [quote]) :=
    Text.after?_eq_some_iff.mpr rfl
  have hBefore : Text.before? [quote] (inner ++ [quote]) = some inner := by
    rw [Text.before?, List.reverse_append, Text.after?_eq_some_iff.mpr rfl, Option.map_some, List.reverse_reverse]
  rw [hAfter, Option.bind_some, hBefore]

theorem reading_string (inner : Text) :
    reading (.string ('"' :: inner ++ ['"'])) = (false, some (StructTag.unescape inner)) := by
  rw [reading, stringValue, bind_before?, Option.map_some]
  exact fun _ => nofun

theorem reading_rawString (inner : Text) :
    reading (.rawString ('\x60' :: inner ++ ['\x60'])) = (true, some (inner.filter (· != '\r'))) := by
  rw [reading, stringValue, bind_before?, Option.map_some]

theorem steady_quoted {quote : Char} (h : Text.isWhite quote = false) (inner : Text) :
    Steady (quote :: inner ++ [quote]) ↔ Steady inner := by
  have hNil : Steady [] := steady_of_not_mem List.not_mem_nil
  have hInner := steady_append_cons h inner []
  have hOuter := steady_append_cons h [] (inner ++ [quote])
  rw [List.nil_append] at hOuter
  rw [List.cons_append, hOuter, and_iff_right hNil, hInner, and_iff_left hNil]

theorem pressed_quoted_eq_iff {quote : Char} (h : Text.isWhite quote = false) (inner : Text) :
    pressed [] (quote :: inner ++ [quote]) = quote :: inner ++ [quote] ↔ Steady (quote :: inner ++ [quote]) := by
  have hInner := between_eq_iff (List.forall_mem_nil _) inner
  rw [List.nil_append] at hInner
  rw [pressed_quoted h, steady_quoted h, ← hInner, List.append_left_inj, List.cons_inj_right]

theorem reading_laid_rawString {t literal rest : Text} (h : rawString? t = some (literal, rest)) :
    reading (laid (.rawString literal)) = reading (.rawString literal) ↔ SteadyLiteral (.rawString literal) := by
  obtain ⟨-, inner, rfl, -⟩ := rawString?_eq_some_iff.mp h
  have hQuote : Text.isWhite '\x60' = false := by decide
  have hVisible : ∀ c, Text.isWhite c = false → (c != '\r') = true := by
    intro c hc
    rw [bne_iff_ne]
    rintro rfl
    exact absurd hc (by decide)
  have hFilter : ('\x60' :: inner ++ ['\x60']).filter (· != '\r') = '\x60' :: inner.filter (· != '\r') ++ ['\x60'] := by
    rw [List.filter_append, List.filter_cons_of_pos (by decide)]
    rfl
  rw [SteadyLiteral, hFilter, steady_quoted hQuote, laid, pressed_quoted hQuote, reading_rawString, reading_rawString,
    filter_between (by decide) hVisible, Prod.mk.injEq, Option.some.injEq]
  exact (and_iff_right rfl).trans (between_eq_iff (List.forall_mem_nil _) _)

/-! ## The run over the tokens -/

def tokenReadings (ts : List Token) : List (Bool × Option Text) := (ts.filter isLiteral).map reading

theorem readings_eq (ls : List Lexeme) : readings ls = tokenReadings (ls.map Lexeme.token) := by
  rw [readings, tokenReadings, stringLiterals]
  refine congrArg (List.map reading) (List.filter_congr fun token _ => ?_)
  cases token <;> rfl

theorem tokenReadings_literal {token : Token} (h : isLiteral token) (ts : List Token) :
    tokenReadings (token :: ts) = reading token :: tokenReadings ts := by
  rw [tokenReadings, List.filter_cons_of_pos h]
  rfl

theorem tokenReadings_laid {t rest : Text} {token : Token} (h : token? t = some (token, rest))
    (hSteady : ∀ literal, token = .string literal → pressed [] literal = literal) (us ts : List Token) :
    tokenReadings (laid token :: us) = tokenReadings (token :: ts) ↔
      SteadyLiteral token ∧ tokenReadings us = tokenReadings ts := by
  cases tokenAt_of_token? h with
  | string hLiteral =>
    obtain ⟨inner, rfl⟩ := exists_of_string? hLiteral
    have hKept : SteadyLiteral (.string ('"' :: inner ++ ['"'])) :=
      (pressed_quoted_eq_iff (by decide) inner).mp (hSteady _ rfl)
    rw [laid, tokenReadings_literal rfl, tokenReadings_literal rfl, List.cons_inj_right, and_iff_right hKept]
    exact fun _ => nofun
  | rawString hLiteral =>
    rw [← reading_laid_rawString hLiteral, tokenReadings_literal rfl, tokenReadings_literal rfl]
    exact List.cons_eq_cons
  | keyword | word | number | rune | symbol =>
    exact (and_iff_right trivial).symm

/-- A literal in double quotes that the layout changes is not read with its value, wherever its end is found. -/
theorem tokenReadings_ne {t literal rest : Text} (h : string? t = some (literal, rest))
    (hChanged : pressed [] literal ≠ literal) (ts : List Token) (fuel : Nat) :
    ((token? (finished [] t)).bind fun p => (tokensWithin fuel p.2).map (p.1 :: ·)).map tokenReadings ≠
      some (tokenReadings (.string literal :: ts)) := by
  obtain ⟨inner, rfl⟩ := exists_of_string? h
  have hQuote : Text.isWhite '"' = false := by decide
  have hSteady : ¬ Steady inner := by
    rw [← steady_quoted hQuote, ← pressed_quoted_eq_iff hQuote]
    exact hChanged
  have hLaid : finished [] t = '"' :: (between [] inner ++ '"' :: finished [] rest) := by
    rw [(string?_eq_some_iff.mp h).1, finished, pressTo_append _ (endsVisible_concat hQuote ('"' :: inner)), pressed_quoted hQuote]
    simp
  intro hSame
  obtain ⟨us, hRun, hSame⟩ := Option.map_eq_some_iff.mp hSame
  obtain ⟨⟨token, behind⟩, hToken, hUs⟩ := Option.bind_eq_some_iff.mp hRun
  obtain ⟨us, -, rfl⟩ := Option.map_eq_some_iff.mp hUs
  rw [hLaid, token?, if_neg (by decide), if_pos (by decide)] at hToken
  obtain ⟨⟨other, _⟩, hLiteral, hEq⟩ := Option.map_eq_some_iff.mp hToken
  cases hEq
  obtain ⟨otherInner, rfl⟩ := exists_of_string? hLiteral
  have hText := (string?_eq_some_iff.mp hLiteral).1.symm
  rw [List.cons_append, List.cons_append, List.append_assoc, List.cons_inj_right] at hText
  have hValue := unescape_ne_of_not_steady hSteady hText
  rw [tokenReadings_literal rfl, tokenReadings_literal rfl, reading_string, reading_string] at hSame
  simp only [List.cons.injEq, Prod.mk.injEq, Option.some.injEq] at hSame
  exact hValue hSame.1.2

theorem tokenReadings_iff {fuel : Nat} {t : Text} {ts : List Token} (h : tokensWithin fuel t = some ts)
    (hFuel : t.length < fuel) {u : Text} (hLaid : skipped u = laidRest (skipped t)) {more : Nat}
    (hMore : u.length < more) :
    (tokensWithin more u).map tokenReadings = some (tokenReadings ts) ↔ ∀ token ∈ ts, SteadyLiteral token := by
  induction fuel generalizing t ts u more with
  | zero => cases hFuel
  | succ fuel ih =>
    obtain ⟨more, rfl⟩ := Nat.exists_eq_add_of_le' (Nat.succ_le_of_lt (Nat.lt_of_le_of_lt (Nat.zero_le _) hMore))
    rcases tokensWithin_eq_some h (Nat.le_of_lt_succ hFuel) with
      ⟨hEnd, rfl⟩ | ⟨c, cs, token, rest, ts, hSkipped, hToken, hRestFuel, hRest, rfl⟩
    · rw [hEnd] at hLaid
      rw [tokensWithin_end hLaid hMore]
      exact iff_of_true rfl (List.forall_mem_singleton.mpr trivial)
    · rw [hSkipped, laidRest] at hLaid
      have hFirst : finished [] (c :: cs) = c :: finished [] cs := pressTo_cons _ (visible_of_token? hToken) [] cs
      have hNe : skipped u ≠ [] := by
        rw [hLaid, hFirst]
        exact List.cons_ne_nil _ _
      have hLength := skipped_length_le u
      rw [hLaid] at hLength
      rw [tokensWithin_cons hNe (Nat.le_of_lt hMore), hLaid]
      by_cases hSteady : ∀ literal, token = .string literal → pressed [] literal = literal
      · have hNew := token?_finished hToken hSteady
        have hShorter := token?_length hNew
        have hLater := ih hRest hRestFuel
          (skipped_finished (visible_of_tokensWithin hRest hRestFuel) (List.forall_mem_nil _))
          (show (finished [] rest).length < more by omega)
        rw [hNew, Option.bind_some, List.forall_mem_cons, ← hLater]
        cases tokensWithin more (finished [] rest) with
        | none => simp only [Option.map_none, reduceCtorEq, and_false]
        | some us =>
          simp only [Option.map_some, Option.some.injEq]
          exact tokenReadings_laid hToken hSteady us ts
      · simp only [not_forall] at hSteady
        obtain ⟨literal, rfl, hChanged⟩ := hSteady
        have hLiteral : string? (c :: cs) = some (literal, rest) := by
          cases tokenAt_of_token? hToken with
          | string hLiteral => exact hLiteral
        refine iff_of_false ?_ ?_
        · exact tokenReadings_ne hLiteral hChanged ts more
        · intro hAll
          obtain ⟨inner, rfl⟩ := exists_of_string? hLiteral
          exact hChanged ((pressed_quoted_eq_iff (by decide) inner).mpr (List.forall_mem_cons.mp hAll).1)

/-! ## The start of the text -/

theorem withoutMark_normalize {t : Text} {fuel : Nat} {ts : List Token} (h : tokensWithin fuel t = some ts)
    (hFuel : t.length < fuel) : withoutMark (normalize t) = normalize t := by
  obtain ⟨hNormal, -⟩ | ⟨indent, c, cs, hNormal, hSkipped, hIndent, hVisible⟩ :=
    exists_normalize (visible_of_tokensWithin h hFuel)
  · rw [hNormal]
    rfl
  · rw [hNormal]
    cases indent with
    | nil =>
      rw [List.nil_append, finished, pressTo_cons _ hVisible]
      refine withoutMark_cons ?_ _
      -- The mark is no token.
      rintro rfl
      have hMark : skipped t = '\uFEFF' :: cs := hSkipped.trans (skipped_token (by decide) rfl)
      obtain ⟨token, rest, hToken⟩ := exists_token? h hFuel hMark
      rw [token?_mark] at hToken
      cases hToken
    | cons d ds =>
      refine withoutMark_cons ?_ _
      rintro rfl
      exact absurd (hIndent _ List.mem_cons_self) (by decide)

theorem skipped_normalize_source {source : Text} {fuel : Nat} {ts : List Token}
    (h : tokensWithin fuel (withoutMark source) = some ts) (hFuel : (withoutMark source).length < fuel) :
    skipped (withoutMark (normalize source)) = laidRest (skipped (withoutMark source)) := by
  have hVisible := visible_of_tokensWithin h hFuel
  by_cases hMark : ∃ cs, source = '\uFEFF' :: cs
  · obtain ⟨cs, rfl⟩ := hMark
    have hNormal : normalize ('\uFEFF' :: cs) = '\uFEFF' :: finished [] cs :=
      normalize_white_append (List.forall_mem_nil _) (by decide) cs
    rw [hNormal]
    exact skipped_finished hVisible (List.forall_mem_nil _)
  · have hSame : withoutMark source = source := by
      cases source with
      | nil => rfl
      | cons c cs =>
        refine withoutMark_cons ?_ cs
        rintro rfl
        exact hMark ⟨cs, rfl⟩
    rw [hSame] at h hFuel hVisible ⊢
    rw [withoutMark_normalize h hFuel, skipped_normalize hVisible]

theorem map_readings_eq (source : Text) : (lexemes source).map readings =
    (tokensWithin ((withoutMark source).length + 1) (withoutMark source)).map tokenReadings := by
  rw [tokensWithin, Option.map_map]
  exact congrArg (Option.map · (lexemes source)) (funext readings_eq)

/-- The literals of a formatted source are those of the source, of the same kinds and with the same values, exactly if
each of them stays as it is when the ends of its lines are trimmed and runs of blank lines are shortened. -/
theorem format?_readings_iff {source t : Text} (h : format? source = some t) :
    ∃ ls, lexemes source = some ls ∧
      ((lexemes t).map readings = some (readings ls) ↔ ∀ literal ∈ stringLiterals ls, SteadyLiteral literal) := by
  rw [format?] at h
  split at h
  · rename_i hParse
    cases h
    obtain ⟨unit, hUnit⟩ := Option.isSome_iff_exists.mp hParse
    obtain ⟨ls, hLexemes, -⟩ := Option.bind_eq_some_iff.mp hUnit
    have hTokens : tokensWithin ((withoutMark source).length + 1) (withoutMark source) = some (ls.map Lexeme.token) :=
      congrArg (Option.map _) hLexemes
    have hRun := tokenReadings_iff hTokens (Nat.lt_succ_self _) (skipped_normalize_source hTokens (Nat.lt_succ_self _))
      (Nat.lt_succ_self _)
    refine ⟨ls, hLexemes, ?_⟩
    rw [map_readings_eq, readings_eq, hRun, stringLiterals]
    constructor
    · intro hAll literal hLiteral
      exact hAll literal (List.mem_filter.mp hLiteral).1
    · intro hAll token hToken
      cases token with
      | string | rawString => exact hAll _ (List.mem_filter.mpr ⟨hToken, rfl⟩)
      | keyword | word | number | rune | symbol | eof => trivial
  · cases h

/-- A literal with a space at the end of its first line. -/
def trailedSource : Text := "package a\n\nvar x = \x60b \nc\x60\n".toList

def trimmedSource : Text := "package a\n\nvar x = \x60b\nc\x60\n".toList

/-- The space at the end of a line in a literal is lost. -/
theorem readings_trailedSource : format? trailedSource = some trimmedSource ∧
    (lexemes trailedSource).map readings = some [(true, some "b \nc".toList)] ∧
    (lexemes trimmedSource).map readings = some [(true, some "b\nc".toList)] := by
  decide +kernel

/-- Loose lines around a literal that has a blank line inside. -/
def paragraphSource : Text := "package a  \n\n\nvar x = \x60b\n\nc\x60\n\n".toList

theorem format?_readings_iff_paragraphSource :
    ∃ t, format? paragraphSource = some t ∧ ∃ ls, lexemes paragraphSource = some ls ∧
      ((lexemes t).map readings = some (readings ls) ↔ ∀ literal ∈ stringLiterals ls, SteadyLiteral literal) := by
  have hParse : (SourceFile.parse paragraphSource).isSome := by decide +kernel
  have hFormat : format? paragraphSource = some (normalize paragraphSource) := if_pos hParse
  exact ⟨_, hFormat, format?_readings_iff hFormat⟩

end GoCommands.Layout
