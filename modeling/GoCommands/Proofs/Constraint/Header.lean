import GoCommands.Constraint.Header
import GoCommands.Proofs.Go.Comments

/-! # The directive that the header of a file states

The search goes line by line and trims each line. What it answers holds of the characters: the text before the
line that it finds is white space and complete comments, and the line itself is in no block comment.
-/

namespace GoCommands

/-- A line of a text, without its end, between the text before it and the text behind it. -/
structure Text.LineAt (source before line behind : Text) : Prop where
  text : source = before ++ (line ++ behind)
  starts : ∀ c ∈ before.getLast?, c = '\n'
  whole : '\n' ∉ line
  ends : ∀ c ∈ behind.head?, c = '\n'

namespace Text

theorem LineAt.last {l : Text} (h : '\n' ∉ l) : LineAt l [] l [] where
  text := (List.append_nil l).symm
  starts := by simp
  whole := h
  ends := by simp

theorem LineAt.first {l : Text} (h : '\n' ∉ l) (rest : Text) : LineAt (l ++ '\n' :: rest) [] l ('\n' :: rest) where
  text := rfl
  starts := by simp
  whole := h
  ends := by simp

theorem LineAt.later {t before line behind : Text} (h : LineAt t before line behind) (l : Text) :
    LineAt (l ++ '\n' :: t) (l ++ '\n' :: before) line behind where
  text := by rw [h.text, List.append_assoc, List.cons_append]
  starts := by
    intro c hc
    rw [List.getLast?_append, List.getLast?_cons] at hc
    cases hLast : before.getLast? with
    | none => simpa [hLast] using hc.symm
    | some d =>
      rw [h.starts d hLast] at hLast
      simpa [hLast] using hc.symm
  whole := h.whole
  ends := h.ends

theorem eq_line_of_append_eq {l line t behind : Text} (h : l ++ '\n' :: t = line ++ behind) (hl : '\n' ∉ l)
    (hLine : '\n' ∉ line) (hEnds : ∀ c ∈ behind.head?, c = '\n') : line = l ∧ behind = '\n' :: t := by
  rcases List.append_eq_append_iff.mp h with ⟨more, rfl, hRest⟩ | ⟨more, rfl, hRest⟩
  · cases more with
    | nil => exact ⟨List.append_nil l, hRest.symm⟩
    | cons c cs =>
      cases hRest
      exact absurd (List.mem_append_right l List.mem_cons_self) hLine
  · cases more with
    | nil => exact ⟨(List.append_nil line).symm, hRest⟩
    | cons c cs =>
      obtain rfl := hEnds c (by rw [hRest]; rfl)
      exact absurd (List.mem_append_right line List.mem_cons_self) hl

theorem LineAt.cases {l t before line behind : Text} (h : LineAt (l ++ '\n' :: t) before line behind)
    (hl : '\n' ∉ l) :
    (before = [] ∧ line = l ∧ behind = '\n' :: t) ∨
      ∃ earlier, before = l ++ '\n' :: earlier ∧ LineAt t earlier line behind := by
  rcases eq_or_ne before [] with rfl | hBefore
  · exact .inl ⟨rfl, eq_line_of_append_eq h.text hl h.whole h.ends⟩
  · have hBreak : '\n' ∈ before := by
      have hLast := List.getLast?_eq_some_getLast hBefore
      rw [h.starts _ hLast] at hLast
      exact List.mem_of_getLast? hLast
    rcases List.append_eq_append_iff.mp h.text with ⟨more, rfl, hRest⟩ | ⟨more, rfl, -⟩
    · cases more with
      | nil => exact absurd ((List.append_nil l).symm ▸ hBreak) hl
      | cons c earlier =>
        cases hRest
        refine .inr ⟨earlier, rfl, rfl, fun d hd => h.starts d ?_, h.whole, h.ends⟩
        simp [List.getLast?_append, List.getLast?_cons, Option.mem_def.mp hd]
    · exact absurd (List.mem_append_left more hBreak) hl

end Text

namespace Constraint

/-- Trimmed, the line is `//go:build` alone or followed by white space and the expression. -/
def IsDirective (line expression : Text) : Prop :=
  ∃ blank, Text.trim line = "//go:build".toList ++ (blank ++ expression) ∧
    (∀ c ∈ blank, Text.isWhite c) ∧ (blank = [] → expression = []) ∧ Text.trim expression = expression

theorem directive?_trim_eq_some_iff {line e : Text} : directive? (Text.trim line) = some e ↔ IsDirective line e := by
  rw [directive?]
  constructor
  · intro h
    split at h
    · rename_i rest hAfter
      rw [Text.after?_eq_some_iff] at hAfter
      split at h
      · rename_i hHead
        cases h
        -- The rest stands at the end of a trimmed line, so it has no white space at its own end.
        have hEnd : Text.trim rest = Text.trimStart rest := by
          apply Text.trimEnd_eq_self
          intro c hc
          apply Text.not_isWhite_of_getLast?_trim (t := line)
          have hSuffix : Text.trimStart rest <:+ Text.trim line :=
            (List.dropWhile_suffix _).trans (hAfter ▸ List.suffix_append _ _)
          obtain ⟨front, hFront⟩ := hSuffix
          rw [← hFront, List.getLast?_append, Option.mem_def.mp hc]
          rfl
        refine ⟨rest.takeWhile Text.isWhite, ?_, fun c hc => List.mem_takeWhile_imp hc, ?_, Text.trim_trim rest⟩
        · rw [hEnd, Text.trimStart, List.takeWhile_append_dropWhile, hAfter]
        · intro hNone
          cases rest with
          | nil => rfl
          | cons c cs =>
            rw [List.head?_cons, Option.all_some] at hHead
            rw [List.takeWhile_cons_of_pos hHead] at hNone
            cases hNone
      · cases h
    · cases h
  · rintro ⟨blank, hLine, hBlank, hAlone, hTrim⟩
    rw [Text.after?_eq_some_iff.mpr hLine]
    have hHead : (blank ++ e).head?.all Text.isWhite = true := by
      cases blank with
      | nil =>
        rw [hAlone rfl]
        rfl
      | cons c cs => exact hBlank c List.mem_cons_self
    have hExpression : Text.trim (blank ++ e) = e := by
      rw [Text.trim, Text.trimStart, List.dropWhile_append_of_pos hBlank]
      exact hTrim
    dsimp only
    rw [if_pos hHead, hExpression]

theorem headerLine_cases (line : Text) :
    match headerLine line with
    | .blank => Text.trim line = []
    | .comment =>
      (∃ rest, Text.trim line = '/' :: '/' :: rest) ∨
        ∃ rest behind, Text.trim line = '/' :: '*' :: rest ∧ Text.afterCommentEnd? rest = some behind ∧
          Text.trim behind = []
    | .opening => ∃ rest, Text.trim line = '/' :: '*' :: rest ∧ Text.afterCommentEnd? rest = none
    | .directive e => IsDirective line e
    | .code => True := by
  fun_cases headerLine line with
  | case1 trimmed hEmpty => exact List.isEmpty_iff.mp hEmpty
  | case2 trimmed _ e hDirective => exact directive?_trim_eq_some_iff.mp hDirective
  | case3 trimmed _ _ rest hTrim => exact .inl ⟨rest, hTrim⟩
  | case4 trimmed _ _ rest hTrim hOpen => exact ⟨rest, hTrim, hOpen⟩
  | case5 trimmed _ _ rest hTrim behind hEnd hBlank =>
    exact .inr ⟨rest, behind, hTrim, hEnd, List.isEmpty_iff.mp hBlank⟩
  | case6 => trivial
  | case7 => trivial

theorem headerLine_of_isDirective {line e : Text} (h : IsDirective line e) : headerLine line = .directive e := by
  have hDirective := directive?_trim_eq_some_iff.mpr h
  have hEmpty : ¬ (Text.trim line).isEmpty = true := by
    intro hEmpty
    rw [List.isEmpty_iff.mp hEmpty] at hDirective
    cases hDirective
  rw [headerLine]
  simp only [if_neg hEmpty, hDirective]

/-- Where the search comes to a line: behind white space and complete comments, or inside a block comment that
the lines before leave open. -/
def AtLine (source : Text) : (inBlock : Bool) → Text → Prop
  | false, t => Go.Skips source t
  | true, t => ∃ opened, Go.Skips source ('/' :: '*' :: (opened ++ '\n' :: t)) ∧ Text.afterCommentEnd? opened = none

namespace AtLine

variable {source l t : Text}

theorem inBlock (h : AtLine source true t) : Go.InBlock source t := by
  obtain ⟨opened, hSkips, hOpen⟩ := h
  refine ⟨opened ++ ['\n'], by rwa [List.append_assoc, List.singleton_append], ?_⟩
  rw [Text.afterCommentEnd?_append_white (List.forall_mem_singleton.mpr (by decide)), hOpen, Option.map_none]

theorem of_white {blank : Text} (h : Go.Skips source (blank ++ '\n' :: t)) (hBlank : ∀ c ∈ blank, Text.isWhite c) :
    AtLine source false t :=
  (h.trans (.of_white hBlank _)).trans (.white (by decide) (.done t))

theorem blank (h : AtLine source false (l ++ '\n' :: t)) (hLine : Text.trim l = []) : AtLine source false t :=
  of_white h (Text.isWhite_of_trim_eq_nil hLine)

theorem line (h : AtLine source false (l ++ '\n' :: t)) (hl : '\n' ∉ l) {text : Text}
    (hLine : Text.trim l = '/' :: '/' :: text) : AtLine source false t := by
  obtain ⟨before, behind, hText, hBefore, -⟩ := Text.exists_trim l
  rw [hLine, List.append_assoc, List.cons_append, List.cons_append] at hText
  rw [hText] at h hl
  simp only [List.mem_append, List.mem_cons, not_or] at hl
  exact Go.Skips.trans h (.of_line hBefore (by simpa using hl.2.2.2))

theorem block (h : AtLine source false (l ++ '\n' :: t)) {text behind : Text}
    (hLine : Text.trim l = '/' :: '*' :: text) (hEnd : Text.afterCommentEnd? text = some behind)
    (hBehind : Text.trim behind = []) : AtLine source false t := by
  obtain ⟨before, after, hText, hBefore, hAfter⟩ := Text.exists_trim l
  rw [hLine] at hText
  rw [AtLine, hText, List.append_assoc, List.append_assoc, List.cons_append, List.cons_append] at h
  have hRest := (h.trans (.of_white hBefore _)).trans (.of_block (Text.afterCommentEnd?_append hEnd _))
  rw [← List.append_assoc] at hRest
  apply of_white hRest
  rw [List.forall_mem_append]
  exact ⟨Text.isWhite_of_trim_eq_nil hBehind, hAfter⟩

theorem opening (h : AtLine source false (l ++ '\n' :: t)) {text : Text} (hLine : Text.trim l = '/' :: '*' :: text)
    (hOpen : Text.afterCommentEnd? text = none) : AtLine source true t := by
  obtain ⟨before, after, hText, hBefore, hAfter⟩ := Text.exists_trim l
  rw [hLine] at hText
  rw [AtLine, hText, List.append_assoc, List.append_assoc, List.cons_append, List.cons_append] at h
  refine ⟨text ++ after, by rw [List.append_assoc]; exact h.trans (.of_white hBefore _), ?_⟩
  rw [Text.afterCommentEnd?_append_white hAfter, hOpen, Option.map_none]

theorem afterCommentEnd?_line {opened : Text} (hOpen : Text.afterCommentEnd? opened = none) (l : Text) :
    ∃ blank, (∀ c ∈ blank, Text.isWhite c) ∧ Text.afterCommentEnd? (opened ++ '\n' :: l) =
      (Text.afterCommentEnd? (Text.trim l)).map (· ++ blank) := by
  obtain ⟨before, behind, hText, hBefore, hBehind⟩ := Text.exists_trim l
  -- The line break before the line keeps a star of the comment apart from a slash of the line.
  have hBreak : ∀ c ∈ '\n' :: before, Text.isWhite c := List.forall_mem_cons.mpr ⟨by decide, hBefore⟩
  have hBroken : '\n' :: l = ('\n' :: before) ++ (Text.trim l ++ behind) := by
    rw [List.cons_append, ← List.append_assoc, ← hText]
  refine ⟨behind, hBehind, ?_⟩
  rw [Text.afterCommentEnd?_append_of_none hOpen (fun _ => by simp), hBroken,
    Text.afterCommentEnd?_white_append hBreak, Text.afterCommentEnd?_append_white hBehind]

theorem inside (h : AtLine source true (l ++ '\n' :: t)) (hOpen : Text.afterCommentEnd? (Text.trim l) = none) :
    AtLine source true t := by
  obtain ⟨opened, hSkips, hNone⟩ := h
  obtain ⟨blank, -, hLine⟩ := afterCommentEnd?_line hNone l
  refine ⟨opened ++ '\n' :: l, by rwa [List.append_assoc, List.cons_append], ?_⟩
  rw [hLine, hOpen, Option.map_none]

theorem closing (h : AtLine source true (l ++ '\n' :: t)) {behind : Text}
    (hEnd : Text.afterCommentEnd? (Text.trim l) = some behind) (hBehind : Text.trim behind = []) :
    AtLine source false t := by
  obtain ⟨opened, hSkips, hNone⟩ := h
  obtain ⟨blank, hBlank, hLine⟩ := afterCommentEnd?_line hNone l
  rw [hEnd, Option.map_some] at hLine
  have hText : opened ++ '\n' :: (l ++ '\n' :: t) = (opened ++ '\n' :: l) ++ '\n' :: t := by
    rw [List.append_assoc, List.cons_append]
  rw [hText] at hSkips
  apply of_white (hSkips.trans (.of_block (Text.afterCommentEnd?_append hLine _)))
  rw [List.forall_mem_append]
  exact ⟨Text.isWhite_of_trim_eq_nil hBehind, hBlank⟩

end AtLine

/-- The first directive line of `text` outside block comments, where `text` is what is left of the source. -/
structure FirstDirective (source text before line behind expression : Text) : Prop where
  isLine : Text.LineAt text before line behind
  states : IsDirective line expression
  outside : ¬ Go.InBlock source (line ++ behind)
  header : Go.Skips source (line ++ behind)
  first : ∀ earlier line' behind' e, Text.LineAt text earlier line' behind' → earlier.length < before.length →
    IsDirective line' e → Go.InBlock source (line' ++ behind')

namespace FirstDirective

variable {source line behind e : Text}

theorem here {text : Text} (h : Text.LineAt text [] line behind) (hDirective : IsDirective line e)
    (hSkips : Go.Skips source (line ++ behind)) : FirstDirective source text [] line behind e where
  isLine := h
  states := hDirective
  outside := hSkips.not_inBlock
  header := hSkips
  first _ _ _ _ _ hEarlier := absurd hEarlier (Nat.not_lt_zero _)

theorem later {l t before : Text} (h : FirstDirective source t before line behind e) (hl : '\n' ∉ l)
    (hFirst : ∀ e', IsDirective l e' → Go.InBlock source (l ++ '\n' :: t)) :
    FirstDirective source (l ++ '\n' :: t) (l ++ '\n' :: before) line behind e where
  isLine := h.isLine.later l
  states := h.states
  outside := h.outside
  header := h.header
  first := by
    intro earlier line' behind' e' hAt hEarlier hDirective
    rcases hAt.cases hl with ⟨-, rfl, rfl⟩ | ⟨earlier', rfl, hLater⟩
    · exact hFirst e' hDirective
    · apply h.first earlier' line' behind' e' hLater _ hDirective
      rw [List.length_append, List.length_append, List.length_cons, List.length_cons] at hEarlier
      omega

end FirstDirective

theorem directiveIn_dropReturn (inBlock : Bool) (l : Text) (rest : List Text) :
    directiveIn inBlock (Text.dropReturn l :: rest) = directiveIn inBlock (l :: rest) := by
  cases inBlock with
  | true => rw [directiveIn, directiveIn, Text.trim_dropReturn]
  | false =>
    have hSame : headerLine (Text.dropReturn l) = headerLine l := by
      rw [headerLine, headerLine, Text.trim_dropReturn]
    rw [directiveIn, directiveIn, hSame]

theorem AtLine.step {source l t e : Text} {inBlock : Bool} {rest : List Text}
    (hAt : AtLine source inBlock (l ++ '\n' :: t)) (hl : '\n' ∉ l) (h : directiveIn inBlock (l :: rest) = some e) :
    (inBlock = false ∧ IsDirective l e) ∨
      ∃ next, AtLine source next t ∧ directiveIn next rest = some e ∧
        ∀ e', IsDirective l e' → Go.InBlock source (l ++ '\n' :: t) := by
  cases inBlock with
  | true =>
    rw [directiveIn] at h
    cases hEnd : Text.afterCommentEnd? (Text.trim l) with
    | none =>
      rw [hEnd] at h
      exact .inr ⟨true, hAt.inside hEnd, h, fun _ _ => hAt.inBlock⟩
    | some behind =>
      simp only [hEnd] at h
      split at h
      · rename_i hBlank
        exact .inr ⟨false, hAt.closing hEnd (List.isEmpty_iff.mp hBlank), h, fun _ _ => hAt.inBlock⟩
      · cases h
  | false =>
    have hKind := headerLine_cases l
    have hOther : (∀ e', headerLine l ≠ .directive e') →
        ∀ e', IsDirective l e' → Go.InBlock source (l ++ '\n' :: t) :=
      fun hNone e' hDirective => absurd (headerLine_of_isDirective hDirective) (hNone e')
    rw [directiveIn] at h
    cases hLine : headerLine l with
    | blank =>
      rw [hLine] at h hKind
      exact .inr ⟨false, hAt.blank hKind, h, hOther (by simp [hLine])⟩
    | comment =>
      rw [hLine] at h hKind
      refine .inr ⟨false, ?_, h, hOther (by simp [hLine])⟩
      rcases hKind with ⟨text, hText⟩ | ⟨text, behind, hText, hEnd, hBehind⟩
      · exact hAt.line hl hText
      · exact hAt.block hText hEnd hBehind
    | opening =>
      rw [hLine] at h hKind
      obtain ⟨text, hText, hOpen⟩ := hKind
      exact .inr ⟨true, hAt.opening hText hOpen, h, hOther (by simp [hLine])⟩
    | directive e' =>
      rw [hLine] at h hKind
      cases h
      exact .inl ⟨rfl, hKind⟩
    | code =>
      rw [hLine] at h
      cases h

end Constraint

end GoCommands
