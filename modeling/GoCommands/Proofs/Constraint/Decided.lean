import GoCommands.Constraint.Header
import GoCommands.Proofs.Text.Lines

/-! # Headers that decide

The search for the directive stops at the first line of code. Behind a line where it has found the directive or
stopped nothing is looked at, and only there: any other header can be followed by a directive that is found.
-/

namespace GoCommands.Constraint

/-- The search goes on behind the line; `next` says whether it is in a block comment there. -/
inductive Passes : (inBlock : Bool) → Text → (next : Bool) → Prop
  | blank {line : Text} : headerLine line = .blank → Passes false line false
  | comment {line : Text} : headerLine line = .comment → Passes false line false
  | opening {line : Text} : headerLine line = .opening → Passes false line true
  | inside {line : Text} : Text.afterCommentEnd? (Text.trim line) = none → Passes true line true
  | closing {line behind : Text} : Text.afterCommentEnd? (Text.trim line) = some behind → Text.trim behind = [] →
      Passes true line false

/-- The search comes to code on the line. -/
inductive StopsAt : (inBlock : Bool) → Text → Prop
  | code {line : Text} : headerLine line = .code → StopsAt false line
  | behind {line behind : Text} : Text.afterCommentEnd? (Text.trim line) = some behind → Text.trim behind ≠ [] →
      StopsAt true line

/-- The search stops at one of the lines. -/
inductive StopsIn : (inBlock : Bool) → List Text → Prop
  | here {inBlock : Bool} {line : Text} {rest : List Text} : StopsAt inBlock line → StopsIn inBlock (line :: rest)
  | later {inBlock next : Bool} {line : Text} {rest : List Text} : Passes inBlock line next → StopsIn next rest →
      StopsIn inBlock (line :: rest)

theorem Passes.directiveIn_cons {inBlock next : Bool} {line : Text} (h : Passes inBlock line next) (rest : List Text) :
    directiveIn inBlock (line :: rest) = directiveIn next rest := by
  cases h with
  | blank hKind | comment hKind | opening hKind => rw [directiveIn, hKind]
  | inside hOpen => rw [directiveIn, hOpen]
  | closing hEnd hBlank =>
    rw [directiveIn, hEnd]
    exact if_pos (List.isEmpty_iff.mpr hBlank)

theorem StopsAt.directiveIn_cons {inBlock : Bool} {line : Text} (h : StopsAt inBlock line) (rest : List Text) :
    directiveIn inBlock (line :: rest) = none := by
  cases h with
  | code hKind => rw [directiveIn, hKind]
  | behind hEnd hCode =>
    rw [directiveIn, hEnd]
    exact if_neg (mt List.isEmpty_iff.mp hCode)

/-- At a line the search goes on, stops or finds the directive. -/
theorem line_cases (inBlock : Bool) (line : Text) : (∃ next, Passes inBlock line next) ∨ StopsAt inBlock line ∨
    ∃ e, ∀ rest, directiveIn inBlock (line :: rest) = some e := by
  cases inBlock with
  | true =>
    cases hEnd : Text.afterCommentEnd? (Text.trim line) with
    | none => exact .inl ⟨true, .inside hEnd⟩
    | some behind =>
      by_cases hBlank : Text.trim behind = []
      · exact .inl ⟨false, .closing hEnd hBlank⟩
      · exact .inr (.inl (.behind hEnd hBlank))
  | false =>
    cases hKind : headerLine line with
    | blank => exact .inl ⟨false, .blank hKind⟩
    | comment => exact .inl ⟨false, .comment hKind⟩
    | opening => exact .inl ⟨true, .opening hKind⟩
    | directive e => exact .inr (.inr ⟨e, fun rest => by rw [directiveIn, hKind]⟩)
    | code => exact .inr (.inl (.code hKind))

theorem StopsIn.directiveIn_append {inBlock : Bool} {ls : List Text} (h : StopsIn inBlock ls) (more : List Text) :
    directiveIn inBlock (ls ++ more) = none := by
  induction h with
  | here hStop => exact hStop.directiveIn_cons _
  | later hPasses _ ih => rw [List.cons_append, hPasses.directiveIn_cons, ih]

theorem directiveIn_append_of_some {inBlock : Bool} {ls : List Text} {e : Text} (h : directiveIn inBlock ls = some e)
    (more : List Text) : directiveIn inBlock (ls ++ more) = some e := by
  induction ls generalizing inBlock with
  | nil => cases inBlock <;> cases h
  | cons line rest ih =>
    rcases line_cases inBlock line with ⟨next, hPasses⟩ | hStop | ⟨e', hFound⟩
    · rw [hPasses.directiveIn_cons] at h
      rw [List.cons_append, hPasses.directiveIn_cons, ih h]
    · rw [hStop.directiveIn_cons] at h
      cases h
    · rw [hFound] at h
      rw [List.cons_append, hFound, h]

/-- A search that neither finds the directive nor stops comes to the end of the lines. -/
theorem exists_state_behind {inBlock : Bool} {ls : List Text} (hNone : directiveIn inBlock ls = none)
    (hStops : ¬ StopsIn inBlock ls) : ∃ next, ∀ more, directiveIn inBlock (ls ++ more) = directiveIn next more := by
  induction ls generalizing inBlock with
  | nil => exact ⟨inBlock, fun more => rfl⟩
  | cons line rest ih =>
    rcases line_cases inBlock line with ⟨next, hPasses⟩ | hStop | ⟨e, hFound⟩
    · rw [hPasses.directiveIn_cons] at hNone
      obtain ⟨last, hLast⟩ := ih hNone fun h => hStops (.later hPasses h)
      exact ⟨last, fun more => by rw [List.cons_append, hPasses.directiveIn_cons, hLast]⟩
    · exact absurd (.here hStop) hStops
    · rw [hFound] at hNone
      cases hNone

/-- What is found in whole lines does not depend on the text behind them exactly if the directive is there or the
search stops there. -/
theorem find?_append_iff {header : Text} (hBreak : header.getLast? = some '\n') :
    (∀ rest, find? (header ++ rest) = find? header) ↔
      (find? header).isSome ∨ StopsIn false (Text.lines header) := by
  have hLines : ∀ rest, find? (header ++ rest) = directiveIn false (Text.lines header ++ Text.lines rest) := by
    intro rest
    rw [find?, Text.lines_append_lines hBreak]
  constructor
  · intro h
    by_contra hUndecided
    rw [not_or, Option.not_isSome_iff_eq_none] at hUndecided
    obtain ⟨hNone, hStops⟩ := hUndecided
    obtain ⟨next, hNext⟩ := exists_state_behind hNone hStops
    have hRest : ∀ rest, directiveIn next (Text.lines rest) = none := by
      intro rest
      rw [← hNext, ← hLines, h, hNone]
    cases next with
    | false => exact absurd (hRest "//go:build x".toList) (by decide)
    | true => exact absurd (hRest "*/\n//go:build x".toList) (by decide)
  · rintro (hFound | hStops) rest
    · obtain ⟨e, hFound⟩ := Option.isSome_iff_exists.mp hFound
      rw [hLines, hFound]
      exact directiveIn_append_of_some hFound _
    · have hNone := hStops.directiveIn_append []
      rw [List.append_nil] at hNone
      rw [hLines, hStops.directiveIn_append, find?, hNone]

end GoCommands.Constraint
