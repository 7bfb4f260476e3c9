import GoCommands.Proofs.Constraint.Header

/-! # Headers that are searched to their end

A header is white space and complete comments. The search gets through it unless something stands behind a block
comment on the line where this ends; then it takes even another comment for code.
-/

namespace GoCommands

namespace Go.Skips

/-- From white space there is one way, if the place is not in the white space itself. -/
theorem of_white_append {blank t u : Text} (hBlank : ∀ c ∈ blank, Text.isWhite c)
    (hVisible : ∀ c ∈ u.head?, ¬ Text.isWhite c) (h : Skips (blank ++ t) u) : Skips t u := by
  induction blank with
  | nil => exact h
  | cons c cs ih =>
    obtain ⟨hFirst, hRest⟩ := List.forall_mem_cons.mp hBlank
    cases h with
    | done => exact absurd hFirst (hVisible c rfl)
    | white _ h => exact ih hRest h
    | comment hComment _ => exact absurd hFirst (Lexer.not_isWhite_of_comment? hComment)

theorem comment_cases {t u comment behind : Text} (hComment : Lexer.comment? t = some (comment, behind))
    (h : Skips t u) : u = t ∨ Skips behind u := by
  cases h with
  | done => exact .inl rfl
  | white hWhite _ => exact absurd hWhite (Lexer.not_isWhite_of_comment? hComment)
  | comment hFound h =>
    rw [hComment] at hFound
    cases hFound
    exact .inr h

theorem block_cases {text u : Text} (h : Skips ('/' :: '*' :: text) u) :
    u = '/' :: '*' :: text ∨ ∃ behind, Text.afterCommentEnd? text = some behind ∧ Skips behind u := by
  cases h with
  | done => exact .inl rfl
  | white hWhite _ => exact absurd hWhite (by decide)
  | comment hFound h =>
    rw [Lexer.comment?] at hFound
    obtain ⟨⟨body, rest⟩, hBody, hEq⟩ := Option.map_eq_some_iff.mp hFound
    cases hEq
    rw [Text.afterCommentEnd?_eq_map, hBody]
    exact .inr ⟨_, rfl, h⟩

/-- What is visible and yet skipped starts a comment. -/
theorem exists_comment {c : Char} {t : Text} (hVisible : ¬ Text.isWhite c) (h : Skips (c :: t) []) :
    c = '/' ∧ ∃ rest, t = '/' :: rest ∨ t = '*' :: rest := by
  cases h with
  | white hWhite _ => exact absurd hWhite hVisible
  | comment hComment _ =>
    obtain ⟨hText, hIsComment⟩ := Lexer.comment?_eq_some_iff.mp hComment
    cases hIsComment with
    | line =>
      cases hText
      exact ⟨rfl, _, .inl rfl⟩
    | block =>
      cases hText
      exact ⟨rfl, _, .inr rfl⟩

end Go.Skips

namespace Constraint

open Go (Skips)

/-- Nothing but white space stands behind a block comment on the line where it ends. -/
def BlocksEndLines (header : Text) : Prop :=
  ∀ opened behind, Skips header ('/' :: '*' :: opened) → Text.afterCommentEnd? opened = some behind →
    ∀ c ∈ behind.takeWhile (· != '\n'), Text.isWhite c

theorem blocksEndLines_block_iff (text : Text) : BlocksEndLines ('/' :: '*' :: text) ↔
    ∀ behind, Text.afterCommentEnd? text = some behind →
      (∀ c ∈ behind.takeWhile (· != '\n'), Text.isWhite c) ∧ BlocksEndLines behind := by
  constructor
  · intro h behind hEnd
    exact ⟨h text behind (.done _) hEnd, fun opened after hSkips => h opened after (.trans (.of_block hEnd) hSkips)⟩
  · intro h opened behind hSkips hEnd
    rcases hSkips.block_cases with hEq | ⟨after, hAfter, hRest⟩
    · cases hEq
      exact (h behind hEnd).1
    · exact (h after hAfter).2 opened behind hRest hEnd

theorem skips_block_iff (text : Text) :
    Skips ('/' :: '*' :: text) [] ↔ ∃ behind, Text.afterCommentEnd? text = some behind ∧ Skips behind [] := by
  constructor
  · intro h
    rcases h.block_cases with hEq | hRest
    · cases hEq
    · exact hRest
  · rintro ⟨behind, hEnd, hRest⟩
    exact .trans (.of_block hEnd) hRest

/-- A header can be cut down to its rest without a change in what is asked of it. -/
structure PassesTo (header rest : Text) : Prop where
  closes : Skips header [] → Skips rest []
  endsLines : BlocksEndLines header ↔ BlocksEndLines rest

namespace PassesTo

variable {s t u : Text}

theorem trans (h : PassesTo s t) (h' : PassesTo t u) : PassesTo s u :=
  ⟨fun hSkips => h'.closes (h.closes hSkips), h.endsLines.trans h'.endsLines⟩

theorem white {blank : Text} (hBlank : ∀ c ∈ blank, Text.isWhite c) (t : Text) : PassesTo (blank ++ t) t where
  closes := Skips.of_white_append hBlank fun _ h => nomatch h
  endsLines := by
    refine forall₂_congr fun opened behind => imp_congr_left ⟨?_, (Skips.of_white hBlank t).trans⟩
    exact Skips.of_white_append hBlank fun c hc => by cases hc; decide

theorem line {line : Text} (hLine : '\n' ∉ line) (t : Text) : PassesTo ('/' :: '/' :: line ++ '\n' :: t) t := by
  have hComment := Go.Lexer.comment?_line hLine t
  have hBreak : PassesTo ('\n' :: t) t :=
    show PassesTo (['\n'] ++ t) t from white (List.forall_mem_singleton.mpr (by decide)) t
  refine .trans ⟨fun h => ?_, forall₂_congr fun opened behind => imp_congr_left ⟨fun h => ?_, ?_⟩⟩ hBreak
  · rcases h.comment_cases hComment with hEq | hRest
    · cases hEq
    · exact hRest
  · rcases h.comment_cases hComment with hEq | hRest
    · cases hEq
    · exact hRest
  · exact Skips.comment hComment

/-- Inside a block comment only its end counts. -/
theorem inside {text text' : Text} (h : Text.afterCommentEnd? text = Text.afterCommentEnd? text') :
    PassesTo ('/' :: '*' :: text) ('/' :: '*' :: text') where
  closes hSkips := by
    rw [skips_block_iff] at hSkips ⊢
    rwa [← h]
  endsLines := by rw [blocksEndLines_block_iff, blocksEndLines_block_iff, h]

theorem block {text behind : Text} (hEnd : Text.afterCommentEnd? text = some behind)
    (hWhite : ∀ c ∈ behind.takeWhile (· != '\n'), Text.isWhite c) : PassesTo ('/' :: '*' :: text) behind where
  closes hSkips := by
    obtain ⟨found, hFound, hRest⟩ := (skips_block_iff text).mp hSkips
    rw [hEnd] at hFound
    cases hFound
    exact hRest
  endsLines := by
    rw [blocksEndLines_block_iff]
    constructor
    · exact fun h => (h behind hEnd).2
    · intro h found hFound
      rw [hEnd] at hFound
      cases hFound
      exact ⟨hWhite, h⟩

section

variable {text after : Text} (hAfter : ∀ c ∈ after, Text.isWhite c)
include hAfter

theorem openLine (hOpen : Text.afterCommentEnd? text = none) (t : Text) :
    PassesTo ('/' :: '*' :: (text ++ (after ++ '\n' :: t))) ('/' :: '*' :: t) := by
  have hBreak : ∀ c ∈ after ++ ['\n'], Text.isWhite c :=
    List.forall_mem_append.mpr ⟨hAfter, List.forall_mem_singleton.mpr (by decide)⟩
  have hBroken : after ++ '\n' :: t = (after ++ ['\n']) ++ t := by rw [List.append_assoc, List.singleton_append]
  apply inside
  -- White space or the line break keeps a star of the line apart from a slash below it.
  rw [hBroken, Text.afterCommentEnd?_append_of_none hOpen, Text.afterCommentEnd?_white_append hBreak]
  intro _ hHead
  cases after with
  | nil => cases hHead
  | cons c cs =>
    cases hHead
    exact absurd (hAfter _ List.mem_cons_self) (by decide)

variable {behind : Text} (hEnd : Text.afterCommentEnd? text = some behind) (hClean : '\n' ∉ text ++ after)
include hEnd hClean

omit hAfter in
theorem takeWhile_line (t : Text) : (behind ++ (after ++ '\n' :: t)).takeWhile (· != '\n') = behind ++ after := by
  have hRest : '\n' ∉ behind ++ after := by
    intro hMem
    rcases List.mem_append.mp hMem with hMem | hMem
    · exact hClean (List.mem_append_left after ((Text.afterCommentEnd?_suffix hEnd).subset hMem))
    · exact hClean (List.mem_append_right text hMem)
  rw [← List.append_assoc]
  exact (Text.cut_append_cons hRest t).1

theorem closedLine (hBlank : Text.trim behind = []) (t : Text) :
    PassesTo ('/' :: '*' :: (text ++ (after ++ '\n' :: t))) t := by
  have hWhite : ∀ c ∈ behind ++ after, Text.isWhite c :=
    List.forall_mem_append.mpr ⟨Text.isWhite_of_trim_eq_nil hBlank, hAfter⟩
  have hBreak : ∀ c ∈ (behind ++ after) ++ ['\n'], Text.isWhite c :=
    List.forall_mem_append.mpr ⟨hWhite, List.forall_mem_singleton.mpr (by decide)⟩
  have hRest := white hBreak t
  rw [List.append_assoc, List.append_assoc, List.singleton_append] at hRest
  refine .trans (block (Text.afterCommentEnd?_append hEnd _) ?_) hRest
  rwa [takeWhile_line hEnd hClean]

omit hAfter in
theorem not_blocksEndLines (hCode : Text.trim behind ≠ []) (t : Text) :
    ¬ BlocksEndLines ('/' :: '*' :: (text ++ (after ++ '\n' :: t))) := by
  intro h
  have hWhite := ((blocksEndLines_block_iff _).mp h _ (Text.afterCommentEnd?_append hEnd _)).1
  rw [takeWhile_line hEnd hClean] at hWhite
  exact hCode (Text.trim_eq_nil fun c hc => hWhite c (List.mem_append_left after hc))

end

end PassesTo

/-- What is left of a header when the search comes to a line, with the opening of the comment that it is in. -/
def remaining (inBlock : Bool) (t : Text) : Text := if inBlock then '/' :: '*' :: t else t

/-- The search passes to the next line, inside a block comment or outside. -/
structure StepsTo (inBlock : Bool) (l t : Text) (next : Bool) : Prop where
  search : ∀ rest, directiveIn inBlock (l :: rest) = directiveIn next rest
  passes : PassesTo (remaining inBlock (l ++ '\n' :: t)) (remaining next t)
  atLine : ∀ source, AtLine source inBlock (l ++ '\n' :: t) → AtLine source next t

/-- The search stops at a line on which something stands behind a block comment. -/
structure Stops (inBlock : Bool) (l t : Text) : Prop where
  search : ∀ rest, directiveIn inBlock (l :: rest) = none
  behind : ¬ BlocksEndLines (remaining inBlock (l ++ '\n' :: t))

/-- A line of a header, cut where it is trimmed. -/
theorem exists_trimmed {l : Text} (hl : '\n' ∉ l) (t : Text) : ∃ before after,
    l ++ '\n' :: t = before ++ (Text.trim l ++ (after ++ '\n' :: t)) ∧ (∀ c ∈ before, Text.isWhite c) ∧
      (∀ c ∈ after, Text.isWhite c) ∧ '\n' ∉ Text.trim l ++ after := by
  obtain ⟨before, after, hText, hBefore, hAfter⟩ := Text.exists_trim l
  refine ⟨before, after, ?_, hBefore, hAfter, ?_⟩
  · rw [← List.append_assoc, ← List.append_assoc, ← hText]
  · intro hMem
    rw [hText, List.append_assoc] at hl
    exact hl (List.mem_append_right before hMem)

/-- A line on which a block comment is open, at `text`: it stays open, or it ends and only white space or something
else stands behind its end. -/
theorem step_block {inBlock : Bool} {l text after t : Text}
    (hStart : PassesTo (remaining inBlock (l ++ '\n' :: t)) ('/' :: '*' :: (text ++ (after ++ '\n' :: t))))
    (hAfter : ∀ c ∈ after, Text.isWhite c) (hClean : '\n' ∉ text ++ after)
    (hSearch : ∀ rest, directiveIn inBlock (l :: rest) = match Text.afterCommentEnd? text with
      | none => directiveIn true rest
      | some behind => if (Text.trim behind).isEmpty then directiveIn false rest else none)
    (hOpen : Text.afterCommentEnd? text = none →
      ∀ source, AtLine source inBlock (l ++ '\n' :: t) → AtLine source true t)
    (hClosed : ∀ behind, Text.afterCommentEnd? text = some behind → Text.trim behind = [] →
      ∀ source, AtLine source inBlock (l ++ '\n' :: t) → AtLine source false t) :
    (∃ next, StepsTo inBlock l t next) ∨ Stops inBlock l t := by
  cases hEnd : Text.afterCommentEnd? text with
  | none =>
    simp only [hEnd] at hSearch
    exact .inl ⟨true, hSearch, hStart.trans (.openLine hAfter hEnd t), hOpen hEnd⟩
  | some behind =>
    simp only [hEnd] at hSearch
    by_cases hBlank : Text.trim behind = []
    · simp only [if_pos (List.isEmpty_iff.mpr hBlank)] at hSearch
      exact .inl ⟨false, hSearch, hStart.trans (.closedLine hAfter hEnd hClean hBlank t), hClosed behind hEnd hBlank⟩
    · simp only [if_neg (mt List.isEmpty_iff.mp hBlank)] at hSearch
      exact .inr ⟨hSearch, fun h => PassesTo.not_blocksEndLines hEnd hClean hBlank t (hStart.endsLines.mp h)⟩

theorem step_inside {l : Text} (hl : '\n' ∉ l) (t : Text) : (∃ next, StepsTo true l t next) ∨ Stops true l t := by
  obtain ⟨before, after, hLine, hBefore, hAfter, hClean⟩ := exists_trimmed hl t
  have hStart : PassesTo (remaining true (l ++ '\n' :: t)) ('/' :: '*' :: (Text.trim l ++ (after ++ '\n' :: t))) := by
    rw [hLine]
    exact .inside (Text.afterCommentEnd?_white_append hBefore _)
  refine step_block hStart hAfter hClean (fun rest => ?_) (fun hEnd _ hAt => hAt.inside hEnd)
    fun _ hEnd hBlank _ hAt => hAt.closing hEnd hBlank
  cases hEnd : Text.afterCommentEnd? (Text.trim l) <;> simp only [directiveIn, hEnd]

section

variable {l rest : Text} (hNone : ∀ e, ¬ IsDirective l e)
include hNone

theorem directive?_trim_eq_none : directive? (Text.trim l) = none := by
  rw [← Option.not_isSome_iff_eq_none, Option.isSome_iff_exists]
  exact fun ⟨e, he⟩ => hNone e (directive?_trim_eq_some_iff.mp he)

theorem headerLine_of_line (hTrim : Text.trim l = '/' :: '/' :: rest) : headerLine l = .comment := by
  have hDirective := directive?_trim_eq_none hNone
  rw [hTrim] at hDirective
  rw [headerLine]
  simp only [hTrim, hDirective, List.isEmpty_cons, Bool.false_eq_true, if_false]

theorem directiveIn_of_block (hTrim : Text.trim l = '/' :: '*' :: rest) (ls : List Text) :
    directiveIn false (l :: ls) = match Text.afterCommentEnd? rest with
      | none => directiveIn true ls
      | some behind => if (Text.trim behind).isEmpty then directiveIn false ls else none := by
  have hDirective := directive?_trim_eq_none hNone
  rw [hTrim] at hDirective
  rw [directiveIn, headerLine]
  simp only [hTrim, hDirective, List.isEmpty_cons, Bool.false_eq_true, if_false]
  cases Text.afterCommentEnd? rest with
  | none => rfl
  | some behind => cases h : (Text.trim behind).isEmpty <;> simp [h]

omit hNone in
/-- Where something is skipped on a line that is not blank, a comment starts, and both its marks are on the line. -/
theorem exists_marks {v after t : Text} (hv : v ≠ []) (hVisible : ∀ c ∈ v.head?, ¬ Text.isWhite c)
    (hAfter : ∀ c ∈ after, Text.isWhite c) (hCloses : Skips (v ++ (after ++ '\n' :: t)) []) :
    (∃ text, v = '/' :: '/' :: text) ∨ ∃ text, v = '/' :: '*' :: text := by
  obtain ⟨c, cs, rfl⟩ := List.exists_cons_of_ne_nil hv
  obtain ⟨rfl, rest, hMarks⟩ := Skips.exists_comment (hVisible c rfl) hCloses
  cases cs with
  | cons d ds => exact hMarks.imp (fun hMark => ⟨ds, by cases hMark; rfl⟩) fun hMark => ⟨ds, by cases hMark; rfl⟩
  | nil =>
    -- The second mark would be white space.
    have hBreak : ∀ d ∈ (after ++ '\n' :: t).head?, Text.isWhite d := by
      cases after with
      | nil =>
        rintro d ⟨⟩
        decide
      | cons d ds =>
        rintro _ ⟨⟩
        exact hAfter d List.mem_cons_self
    obtain hMark | hMark : after ++ '\n' :: t = '/' :: rest ∨ after ++ '\n' :: t = '*' :: rest := hMarks
    all_goals
      rw [hMark] at hBreak
      exact absurd (hBreak _ rfl) (by decide)

theorem step_outside {t : Text} (hl : '\n' ∉ l) (hCloses : Skips (l ++ '\n' :: t) []) :
    (∃ next, StepsTo false l t next) ∨ Stops false l t := by
  obtain ⟨before, after, hLine, hBefore, hAfter, hClean⟩ := exists_trimmed hl t
  have hStart : PassesTo (remaining false (l ++ '\n' :: t)) (Text.trim l ++ (after ++ '\n' :: t)) := by
    rw [hLine]
    exact .white hBefore _
  by_cases hTrim : Text.trim l = []
  · have hKind : headerLine l = .blank := by
      rw [headerLine, hTrim]
      rfl
    have hBreak : ∀ c ∈ after ++ ['\n'], Text.isWhite c :=
      List.forall_mem_append.mpr ⟨hAfter, List.forall_mem_singleton.mpr (by decide)⟩
    have hRest := PassesTo.white hBreak t
    rw [List.append_assoc, List.singleton_append] at hRest
    rw [hTrim] at hStart
    exact .inl ⟨false, fun rest => by rw [directiveIn, hKind], hStart.trans hRest, fun _ hAt => hAt.blank hTrim⟩
  have hVisible : ∀ c ∈ (Text.trim l).head?, ¬ Text.isWhite c := fun _ hc => Text.not_isWhite_of_head?_trim hc
  rcases exists_marks hTrim hVisible hAfter (hStart.closes hCloses) with ⟨text, hTrim⟩ | ⟨text, hTrim⟩
  · have hKind := headerLine_of_line hNone hTrim
    rw [hTrim] at hStart hClean
    have hRest : PassesTo ('/' :: '/' :: (text ++ after) ++ '\n' :: t) t := by
      refine .line (fun hMem => hClean ?_) t
      exact List.mem_cons_of_mem _ (List.mem_cons_of_mem _ hMem)
    rw [List.cons_append, List.cons_append, List.append_assoc] at hRest
    exact .inl ⟨false, fun rest => by rw [directiveIn, hKind], hStart.trans hRest, fun _ hAt => hAt.line hl hTrim⟩
  · rw [hTrim] at hStart hClean
    have hClean : '\n' ∉ text ++ after := fun hMem =>
      hClean (List.mem_cons_of_mem _ (List.mem_cons_of_mem _ hMem))
    exact step_block hStart hAfter hClean (directiveIn_of_block hNone hTrim) (fun hEnd _ hAt => hAt.opening hTrim hEnd)
      fun _ hEnd hBlank _ hAt => hAt.block hTrim hEnd hBlank

end

/-- The lines that state something stand in block comments of the source. -/
def StatesNothing (source t : Text) : Prop :=
  ∀ before line behind e, Text.LineAt t before line behind → IsDirective line e → Go.InBlock source (line ++ behind)

theorem StatesNothing.nil (source : Text) : StatesNothing source [] := by
  rintro before line behind e hLine ⟨blank, hText, -⟩
  obtain ⟨-, hRest⟩ := List.append_eq_nil_iff.mp hLine.text.symm
  rw [(List.append_eq_nil_iff.mp hRest).1] at hText
  cases hText

theorem StatesNothing.line {source l t : Text} (hl : '\n' ∉ l)
    (hFirst : directive? (Text.trim l) = none ∨ Go.InBlock source (l ++ '\n' :: t)) (h : StatesNothing source t) :
    StatesNothing source (l ++ '\n' :: t) := by
  intro before line behind e hLine hDirective
  rcases hLine.cases hl with ⟨-, rfl, rfl⟩ | ⟨earlier, -, hLater⟩
  · rcases hFirst with hNone | hBlock
    · rw [directive?_trim_eq_some_iff.mpr hDirective] at hNone
      cases hNone
    · exact hBlock
  · exact h earlier line behind e hLater hDirective

theorem exists_step {source l t : Text} {inBlock : Bool} (hl : '\n' ∉ l)
    (hAt : AtLine source inBlock (l ++ '\n' :: t)) (hCloses : Skips (remaining inBlock (l ++ '\n' :: t)) [])
    (hNone : StatesNothing source (l ++ '\n' :: t)) : (∃ next, StepsTo inBlock l t next) ∨ Stops inBlock l t := by
  cases inBlock with
  | true => exact step_inside hl t
  | false =>
    refine step_outside (fun e hDirective => ?_) hl hCloses
    exact Skips.not_inBlock hAt (hNone [] l ('\n' :: t) e (.first hl t) hDirective)

theorem directiveIn_header {source t tail e : Text} {inBlock : Bool} (hAt : AtLine source inBlock t)
    (hEnd : ∀ c ∈ t.getLast?, c = '\n') (hCloses : Skips (remaining inBlock t) []) (hNone : StatesNothing source t)
    (hTail : directiveIn false (Text.lines tail) = some e) :
    (BlocksEndLines (remaining inBlock t) → directiveIn inBlock (Text.lines (t ++ tail)) = some e) ∧
      (¬ BlocksEndLines (remaining inBlock t) → directiveIn inBlock (Text.lines (t ++ tail)) = none) := by
  -- By induction on the lines of the header; each step asks of the rest what is asked of the whole.
  induction t using Text.lines_induction generalizing inBlock with
  | last l hl =>
    obtain rfl : l = [] := by
      by_contra hl'
      have hLast := List.getLast?_eq_some_getLast hl'
      rw [hEnd _ hLast] at hLast
      exact hl (List.mem_of_getLast? hLast)
    cases inBlock with
    | true =>
      obtain ⟨behind, hBehind, -⟩ := (skips_block_iff []).mp hCloses
      cases hBehind
    | false =>
      refine ⟨fun _ => hTail, fun h => absurd (fun opened behind hSkips => ?_) h⟩
      cases hSkips with
      | comment hComment _ => cases hComment
  | line l t hl ih =>
    have hLines : ∀ rest, Text.lines ((l ++ '\n' :: t) ++ rest) = Text.dropReturn l :: Text.lines (t ++ rest) := by
      intro rest
      rw [List.append_assoc, List.cons_append, Text.lines_append hl]
    rw [hLines, directiveIn_dropReturn]
    rcases exists_step hl hAt hCloses hNone with ⟨next, hStep⟩ | hStop
    · rw [hStep.search, hStep.passes.endsLines]
      apply ih (hStep.atLine source hAt) _ (hStep.passes.closes hCloses)
      · exact fun before line behind e' hLine => hNone _ line behind e' (hLine.later l)
      · intro c hc
        apply hEnd c
        rw [List.getLast?_append, List.getLast?_cons, Option.mem_def.mp hc]
        rfl
    · exact ⟨fun h => absurd h hStop.behind, fun _ => hStop.search _⟩

theorem isDirective_line (e : Text) : IsDirective ("//go:build ".toList ++ e) (Text.trim e) := by
  have hMark : ∀ c ∈ "//go:build".toList, Text.isWhite c = false := by
    simpa using (by decide : "//go:build".toList.all (!Text.isWhite ·))
  have hTrim : Text.trim ("//go:build ".toList ++ e) = "//go:build".toList ++ Text.trimEnd (' ' :: e) := by
    have hStart : Text.trimStart ("//go:build ".toList ++ e) = "//go:build".toList ++ ' ' :: e := rfl
    rw [Text.trim, hStart, Text.trimEnd_append_of_visible hMark]
  obtain ⟨before, after, hText, hBefore, hAfter⟩ := Text.exists_trim e
  have hBlank : ∀ c ∈ ' ' :: before, Text.isWhite c := List.forall_mem_cons.mpr ⟨by decide, hBefore⟩
  have hEnd : Text.trimEnd (' ' :: e) = Text.trimEnd ((' ' :: before) ++ Text.trim e) := by
    have hWhole : ' ' :: e = ((' ' :: before) ++ Text.trim e) ++ after := by
      rw [List.cons_append, List.cons_append, ← hText]
    rw [hWhole, Text.trimEnd_append_white _ hAfter]
  rw [IsDirective, hTrim, hEnd]
  obtain hNil | ⟨front, c, hLast⟩ := List.eq_nil_or_concat (Text.trim e)
  · refine ⟨[], ?_, fun _ h => (List.not_mem_nil h).elim, fun _ => hNil, Text.trim_trim e⟩
    have hWhite := Text.trimEnd_append_white [] hBlank
    rw [hNil, List.append_nil, List.nil_append]
    exact congrArg _ hWhite
  · refine ⟨' ' :: before, ?_, hBlank, fun h => (List.cons_ne_nil _ _ h).elim, Text.trim_trim e⟩
    rw [List.concat_eq_append] at hLast
    have hVisible : Text.isWhite c = false := by
      rw [← Bool.not_eq_true]
      exact Text.not_isWhite_of_getLast?_trim (t := e) (by simp [hLast])
    rw [hLast, ← List.append_assoc, Text.trimEnd_concat hVisible]

/-- Behind a header of white space and complete comments a directive is found exactly if nothing but white space
stands behind each block comment on the line where it ends; otherwise none is found. -/
theorem find?_header_iff {header e behind : Text} (hCloses : Skips header [])
    (hEnd : ∀ c ∈ header.getLast?, c = '\n') (hNone : StatesNothing header header) (hLine : '\n' ∉ e)
    (hBehind : ∀ c ∈ behind.head?, c = '\n') :
    (BlocksEndLines header → find? (header ++ ("//go:build ".toList ++ e ++ behind)) = some (Text.trim e)) ∧
      (¬ BlocksEndLines header → find? (header ++ ("//go:build ".toList ++ e ++ behind)) = none) := by
  have hClean : '\n' ∉ "//go:build ".toList ++ e := by
    rw [List.mem_append, not_or]
    exact ⟨by decide, hLine⟩
  have hFirst : ∀ rest, directiveIn false (("//go:build ".toList ++ e) :: rest) = some (Text.trim e) := by
    intro rest
    rw [directiveIn, headerLine_of_isDirective (isDirective_line e)]
  have hStart : AtLine header false header := .done header
  refine directiveIn_header hStart hEnd hCloses hNone ?_
  cases behind with
  | nil =>
    rw [List.append_nil, Text.lines_of_not_mem hClean]
    exact hFirst []
  | cons c rest =>
    obtain rfl := hBehind c rfl
    rw [Text.lines_append hClean, directiveIn_dropReturn]
    exact hFirst _

/-- A directive in a block comment over three lines, then a line comment with the mark of a block comment. -/
def passableHeader : Text :=
  "/*".toList ++ '\n' :: ("//go:build no".toList ++ '\n' :: ("*/".toList ++ '\n' :: ("// b /*".toList ++ ['\n'])))

theorem find?_header_iff_passableHeader : BlocksEndLines passableHeader ∧
    find? (passableHeader ++ ("//go:build ".toList ++ " gantry ".toList ++ "\npackage ops\n".toList)) =
      some "gantry".toList := by
  have hBlank : ∀ c ∈ ['\n'], Text.isWhite c := List.forall_mem_singleton.mpr (by decide)
  have hLine : '\n' ∉ " b /*".toList := by decide
  have hBehind : Text.afterCommentEnd? (passableHeader.drop 2) =
      some (['\n'] ++ ('/' :: '/' :: " b /*".toList ++ ['\n'])) := by decide
  have hEmpty : BlocksEndLines [] := fun _ _ hSkips => by
    cases hSkips with
    | comment hComment _ => cases hComment
  have hAll : BlocksEndLines passableHeader := by
    have hPasses := (PassesTo.block hBehind (List.all_eq_true.mp (by decide))).trans ((PassesTo.white hBlank _).trans (.line hLine []))
    exact hPasses.endsLines.mpr hEmpty
  have hCloses : Skips passableHeader [] :=
    .trans (.of_block hBehind) (.of_line hBlank hLine)
  have hNone : StatesNothing passableHeader passableHeader :=
    .line (by decide) (.inl (by decide)) <|
      .line (by decide) (.inr ⟨['\n'], .done _, by decide⟩) <|
        .line (by decide) (.inl (by decide)) <| .line (by decide) (.inl (by decide)) <| .nil _
  exact ⟨hAll, (find?_header_iff hCloses (by simp [passableHeader]) hNone (by decide) (by simp)).1 hAll⟩

/-- Two block comments on one line. -/
def sharedLine : Text := "/* a */ /* b */".toList ++ ['\n']

/-- A directive below two comments on one line is missed. -/
theorem exists_missed : ∃ header e behind, Skips header [] ∧ (∀ c ∈ header.getLast?, c = '\n') ∧
    StatesNothing header header ∧ '\n' ∉ e ∧ (∀ c ∈ behind.head?, c = '\n') ∧
      find? (header ++ ("//go:build ".toList ++ e ++ behind)) ≠ some (Text.trim e) := by
  have hFirst : Text.afterCommentEnd? (sharedLine.drop 2) = some ([' '] ++ "/* b */\n".toList) := by decide
  have hSecond : Text.afterCommentEnd? " b */\n".toList = some ['\n'] := by decide
  have hCloses : Skips sharedLine [] :=
    .trans (.of_block hFirst) <| .trans (.of_white (List.forall_mem_singleton.mpr (by decide)) _) <|
      .trans (.of_block hSecond) (.white (by decide) (.done []))
  have hEnd : sharedLine.getLast? = some '\n' := List.getLast?_concat
  refine ⟨sharedLine, "gantry".toList, ['\n'], hCloses, by simp [hEnd], ?_, by decide, by simp, by decide⟩
  exact .line (by decide) (.inl (by decide)) (.nil _)

end Constraint

end GoCommands
