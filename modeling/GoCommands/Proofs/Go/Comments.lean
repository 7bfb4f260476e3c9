import GoCommands.Proofs.Go.Lossless
import GoCommands.Proofs.Text.Lines

/-! # White space and comments before a place in a source

A place in a text is given by the rest of the text behind it. White space here is that of trimming, which has
more characters than the blanks of the lexer.
-/

namespace GoCommands

namespace Text

theorem afterCommentEnd?_eq_map (t : Text) : afterCommentEnd? t = (Go.Lexer.blockComment? t).map Prod.snd := by
  induction t using commentEnd_induction with
  | nil => rfl
  | close rest => rfl
  | cons c rest hOther ih =>
    rw [afterCommentEnd?_cons hOther, Go.Lexer.blockComment?_cons hOther, ih, Option.map_map]
    rfl

theorem exists_of_afterCommentEnd? {t behind : Text} (h : afterCommentEnd? t = some behind) :
    ∃ body, t = body ++ '*' :: '/' :: behind := by
  induction t using commentEnd_induction with
  | nil => cases h
  | close =>
    cases h
    exact ⟨[], rfl⟩
  | cons c cs hOther ih =>
    rw [afterCommentEnd?_cons hOther] at h
    obtain ⟨body, rfl⟩ := ih h
    exact ⟨c :: body, rfl⟩

theorem afterCommentEnd?_suffix {t behind : Text} (h : afterCommentEnd? t = some behind) : behind <:+ t := by
  obtain ⟨body, rfl⟩ := exists_of_afterCommentEnd? h
  exact ⟨body ++ ['*', '/'], List.append_assoc _ _ _⟩

theorem afterCommentEnd?_length {t behind : Text} (h : afterCommentEnd? t = some behind) :
    behind.length < t.length := by
  obtain ⟨body, rfl⟩ := exists_of_afterCommentEnd? h
  rw [List.length_append, List.length_cons, List.length_cons]
  omega

theorem afterCommentEnd?_of_not_mem {t : Text} (h : '*' ∉ t) : afterCommentEnd? t = none := by
  induction t with
  | nil => rfl
  | cons c cs ih =>
    obtain ⟨hFirst, hRest⟩ := not_or.mp (mt List.mem_cons.mpr h)
    rw [afterCommentEnd?_cons, ih hRest]
    exact fun _ hStar => absurd hStar.symm hFirst

theorem afterCommentEnd?_append {t behind : Text} (h : afterCommentEnd? t = some behind) (rest : Text) :
    afterCommentEnd? (t ++ rest) = some (behind ++ rest) := by
  induction t using commentEnd_induction with
  | nil => cases h
  | close =>
    cases h
    rfl
  | cons c cs hOther ih =>
    rw [afterCommentEnd?_cons hOther] at h
    rw [List.cons_append, afterCommentEnd?_cons, ih h]
    -- The text has an end, so its rest is not empty and the star and the slash cannot come from both parts.
    rintro after rfl hCut
    cases cs with
    | nil => cases h
    | cons d ds =>
      cases hCut
      exact hOther ds rfl rfl

theorem afterCommentEnd?_append_of_none {t rest : Text} (h : afterCommentEnd? t = none)
    (hApart : t.getLast? = some '*' → rest.head? ≠ some '/') : afterCommentEnd? (t ++ rest) = afterCommentEnd? rest := by
  induction t using commentEnd_induction with
  | nil => rfl
  | close => cases h
  | cons c cs hOther ih =>
    rw [afterCommentEnd?_cons hOther] at h
    cases cs with
    | nil =>
      -- Only here could the star be of the first text and the slash of the second.
      rw [List.singleton_append, afterCommentEnd?_cons]
      rintro after rfl rfl
      exact hApart rfl rfl
    | cons d ds =>
      rw [List.cons_append, afterCommentEnd?_cons, ih h]
      · rwa [List.getLast?_cons_cons] at hApart
      · rintro after rfl hCut
        cases hCut
        exact hOther ds rfl rfl

theorem length_of_afterCommentEnd?_append {t rest behind : Text} (h : afterCommentEnd? t = none)
    (hFound : afterCommentEnd? (t ++ rest) = some behind) : behind.length < rest.length := by
  induction t using commentEnd_induction with
  | nil => exact afterCommentEnd?_length hFound
  | close => cases h
  | cons c cs hOther ih =>
    rw [afterCommentEnd?_cons hOther] at h
    cases cs with
    | nil =>
      rw [List.singleton_append] at hFound
      unfold afterCommentEnd? at hFound
      split at hFound
      · cases hFound
      · rename_i hCut
        cases hCut
        cases hFound
        exact Nat.lt_succ_self _
      · rename_i hCut
        cases hCut
        exact afterCommentEnd?_length hFound
    | cons d ds =>
      rw [List.cons_append, afterCommentEnd?_cons] at hFound
      · exact ih h hFound
      · rintro after rfl hCut
        cases hCut
        exact hOther ds rfl rfl

section White

variable {blank : Text} (hBlank : ∀ c ∈ blank, isWhite c)
include hBlank

theorem afterCommentEnd?_of_white : afterCommentEnd? blank = none :=
  afterCommentEnd?_of_not_mem fun hMem => absurd (hBlank _ hMem) (by decide)

theorem afterCommentEnd?_white_append (t : Text) : afterCommentEnd? (blank ++ t) = afterCommentEnd? t := by
  apply afterCommentEnd?_append_of_none (afterCommentEnd?_of_white hBlank)
  intro hLast
  exact absurd (hBlank _ (List.mem_of_getLast? hLast)) (by decide)

theorem afterCommentEnd?_append_white (t : Text) :
    afterCommentEnd? (t ++ blank) = (afterCommentEnd? t).map (· ++ blank) := by
  cases hFound : afterCommentEnd? t with
  | some behind => exact afterCommentEnd?_append hFound blank
  | none =>
    rw [afterCommentEnd?_append_of_none hFound, afterCommentEnd?_of_white hBlank, Option.map_none]
    intro _ hHead
    exact absurd (hBlank _ (List.mem_of_head? hHead)) (by decide)

end White

end Text

namespace Go

theorem Lexer.comment?_length {t comment behind : Text} (h : comment? t = some (comment, behind)) :
    behind.length < t.length := by
  obtain ⟨rfl, hComment⟩ := comment?_eq_some_iff.mp h
  obtain ⟨more, rfl⟩ := hComment.exists_cons
  rw [List.length_append, List.length_cons]
  omega

theorem Lexer.not_isWhite_of_comment? {c : Char} {t : Text} {found : Text × Text}
    (h : comment? (c :: t) = some found) : ¬ Text.isWhite c := by
  rw [head_of_comment? h]
  decide

theorem Lexer.comment?_line {line : Text} (hLine : '\n' ∉ line) (rest : Text) :
    comment? ('/' :: '/' :: (line ++ '\n' :: rest)) = some ('/' :: '/' :: line, '\n' :: rest) :=
  comment?_eq_some_iff.mpr ⟨rfl, .line hLine (by rintro c ⟨⟩; rfl)⟩

/-- Only white space and complete comments stand between two places of a source. -/
inductive Skips : Text → Text → Prop where
  | done (t : Text) : Skips t t
  | white {c : Char} {t rest : Text} : Text.isWhite c → Skips t rest → Skips (c :: t) rest
  | comment {t comment behind rest : Text} :
      Lexer.comment? t = some (comment, behind) → Skips behind rest → Skips t rest

/-- The rest of a source starts inside a block comment that stands behind white space and complete comments. -/
def InBlock (source rest : Text) : Prop :=
  ∃ opened, Skips source ('/' :: '*' :: (opened ++ rest)) ∧ Text.afterCommentEnd? opened = none

namespace Skips

variable {s t u : Text}

theorem trans (h : Skips s t) (h' : Skips t u) : Skips s u := by
  induction h with
  | done => exact h'
  | white hWhite _ ih => exact .white hWhite (ih h')
  | comment hComment _ ih => exact .comment hComment (ih h')

theorem of_white {blank : Text} (hBlank : ∀ c ∈ blank, Text.isWhite c) (rest : Text) :
    Skips (blank ++ rest) rest := by
  induction blank with
  | nil => exact .done rest
  | cons c cs ih =>
    obtain ⟨hFirst, hRest⟩ := List.forall_mem_cons.mp hBlank
    exact .white hFirst (ih hRest)

theorem of_line {blank line rest : Text} (hBlank : ∀ c ∈ blank, Text.isWhite c) (hLine : '\n' ∉ line) :
    Skips (blank ++ '/' :: '/' :: line ++ '\n' :: rest) rest := by
  rw [List.append_assoc]
  exact (of_white hBlank _).trans (.comment (Lexer.comment?_line hLine rest) (.white (by decide) (.done rest)))

theorem of_block {text behind : Text} (h : Text.afterCommentEnd? text = some behind) :
    Skips ('/' :: '*' :: text) behind := by
  rw [Text.afterCommentEnd?_eq_map] at h
  obtain ⟨⟨body, rest⟩, hBody, rfl⟩ := Option.map_eq_some_iff.mp h
  have hComment : Lexer.comment? ('/' :: '*' :: text) = some ('/' :: '*' :: body, rest) := by
    rw [Lexer.comment?, hBody, Option.map_some]
  exact .comment hComment (.done rest)

theorem length_le (h : Skips s t) : t.length ≤ s.length := by
  induction h with
  | done => exact le_rfl
  | white _ _ ih => exact le_trans ih (Nat.le_succ _)
  | comment hComment _ ih => exact le_trans ih (Lexer.comment?_length hComment).le

theorem linear (h : Skips s t) (h' : Skips s u) (hLength : u.length ≤ t.length) : Skips t u := by
  -- A text starts with white space or with a comment but not with both, so the second way follows the first one.
  induction h with
  | done => exact h'
  | @white c s t hWhite hRest ih =>
    have hShort := hRest.length_le
    cases h' with
    | done =>
      rw [List.length_cons] at hLength
      omega
    | white _ h' => exact ih h' hLength
    | comment hComment _ => exact absurd hWhite (Lexer.not_isWhite_of_comment? hComment)
  | @comment s comment behind t hComment hRest ih =>
    have hShort := hRest.length_le
    have hShorter := Lexer.comment?_length hComment
    cases h' with
    | done => omega
    | white hWhite _ => exact absurd hWhite (Lexer.not_isWhite_of_comment? hComment)
    | comment hComment' h' =>
      rw [hComment] at hComment'
      cases hComment'
      exact ih h' hLength

/-- A place behind complete comments is in none of them. -/
theorem not_inBlock (h : Skips s t) : ¬ InBlock s t := by
  rintro ⟨opened, hOpen, hNone⟩
  -- The comment that is open at the place starts before it, so it must be skipped on the way there.
  have hInside : Skips ('/' :: '*' :: (opened ++ t)) t := by
    apply hOpen.linear h
    rw [List.length_cons, List.length_cons, List.length_append]
    omega
  generalize hText : '/' :: '*' :: (opened ++ t) = text at hInside
  cases hInside with
  | done =>
    have hLength := congrArg List.length hText
    rw [List.length_cons, List.length_cons, List.length_append] at hLength
    omega
  | white hWhite _ =>
    cases hText
    exact absurd hWhite (by decide)
  | @comment _ comment behind _ hComment hBehind =>
    rw [← hText, Lexer.comment?] at hComment
    obtain ⟨⟨body, behind⟩, hBody, hEq⟩ := Option.map_eq_some_iff.mp hComment
    cases hEq
    have hFound : Text.afterCommentEnd? (opened ++ t) = some behind := by
      rw [Text.afterCommentEnd?_eq_map, hBody, Option.map_some]
    have hShort := Text.length_of_afterCommentEnd?_append hNone hFound
    have hLong := hBehind.length_le
    omega

end Skips

end Go

end GoCommands
