import GoCommands.Proofs.Wrapper.Selection
import Mathlib.Data.List.Chain

/-! # The canonical layout

A text is seen as its paragraphs, which are runs of lines that are not blank. The layout of a text consists of the
same paragraphs, their lines trimmed, with one empty line between two of them. That it is stable, and all that
is said of its blank lines, is read off this form.
-/

namespace GoCommands

/-- Each line with its line break. -/
def Text.ofLines (ls : List Text) : Text := ls.flatMap (· ++ ['\n'])

namespace Text

theorem ofLines_cons (l : Text) (ls : List Text) : ofLines (l :: ls) = l ++ '\n' :: ofLines ls := by
  rw [ofLines, List.flatMap_cons, List.append_assoc]
  rfl

theorem ofLines_append (ls ms : List Text) : ofLines (ls ++ ms) = ofLines ls ++ ofLines ms := List.flatMap_append

theorem lines_ofLines {ls : List Text} (h : ∀ l ∈ ls, '\n' ∉ l) : lines (ofLines ls) = ls.map dropReturn := by
  induction ls with
  | nil => rfl
  | cons l ls ih =>
    obtain ⟨hFirst, hRest⟩ := List.forall_mem_cons.mp h
    rw [ofLines_cons, lines_append hFirst, ih hRest, List.map_cons]

theorem splitAt_ofLines {ls : List Text} (h : ∀ l ∈ ls, '\n' ∉ l) : splitAt '\n' (ofLines ls) = ls ++ [[]] := by
  induction ls with
  | nil => rfl
  | cons l ls ih =>
    obtain ⟨hFirst, hRest⟩ := List.forall_mem_cons.mp h
    rw [ofLines_cons, splitAt_append, splitAt_of_not_mem hFirst, ih hRest]
    rfl

theorem newline_not_mem_of_mem_lines {l t : Text} (h : l ∈ lines t) : '\n' ∉ l := by
  have hPiece : ∀ piece ∈ splitAt '\n' t, '\n' ∉ piece := fun piece hp => not_mem_of_mem_splitAt hp
  rw [lines, List.mem_append] at h
  rcases h with h | h
  · obtain ⟨piece, hMem, rfl⟩ := List.mem_map.mp h
    have hClean := hPiece piece (List.dropLast_subset _ hMem)
    rw [dropReturn]
    split
    · exact fun hBreak => hClean (List.dropLast_subset _ hBreak)
    · exact hClean
  · split at h
    · cases h
    · rw [List.mem_singleton.mp h]
      cases hLast : (splitAt '\n' t).getLast? with
      | none => exact List.not_mem_nil
      | some piece => exact hPiece piece (List.mem_of_getLast? hLast)

end Text

namespace Layout

/-- Nothing but white space. -/
def isBlank (l : Text) : Bool := l.all Text.isWhite

/-- The lines that are not blank; those with no blank line between them are together. -/
def paragraphs (t : Text) : List (List Text) := ((Text.lines t).splitOnP isBlank).filter (!·.isEmpty)

/-- Paragraphs with an empty line between two of them. -/
def ofParagraphs : List (List Text) → Text
  | [] => []
  | p :: ps => Text.ofLines p ++ ps.flatMap fun q => '\n' :: Text.ofLines q

/-- A line with something visible at its end. -/
structure IsTidy (l : Text) : Prop where
  endsVisible : EndsVisible l
  clean : '\n' ∉ l

theorem trimEnd_eq_nil_iff (l : Text) : Text.trimEnd l = [] ↔ isBlank l := by
  rw [Text.trimEnd, List.reverse_eq_nil_iff, List.dropWhile_eq_nil_iff, isBlank, List.all_eq_true]
  exact forall_congr' fun c => by rw [List.mem_reverse]

theorem endsVisible_trimEnd {l : Text} (h : isBlank l = false) : EndsVisible (Text.trimEnd l) := by
  have hNonempty : Text.trimEnd l ≠ [] := by
    rw [ne_eq, trimEnd_eq_nil_iff, h]
    exact Bool.false_ne_true
  refine ⟨(Text.trimEnd l).dropLast, _, (List.dropLast_concat_getLast hNonempty).symm, ?_⟩
  have hStop := List.head?_dropWhile_not Text.isWhite l.reverse
  have hLast : (l.reverse.dropWhile Text.isWhite).head? = some ((Text.trimEnd l).getLast hNonempty) := by
    rw [← List.getLast?_reverse, ← Text.trimEnd, List.getLast?_eq_some_getLast]
  rwa [hLast] at hStop

namespace EndsVisible

variable {l : Text} (h : EndsVisible l)
include h

theorem ne_nil : l ≠ [] := by
  obtain ⟨front, last, rfl, -⟩ := h
  exact List.append_ne_nil_of_right_ne_nil front (List.cons_ne_nil last [])

theorem not_isBlank : isBlank l = false := by
  obtain ⟨front, last, rfl, hLast⟩ := h
  rw [isBlank, List.all_append, List.all_cons, hLast, Bool.false_and, Bool.and_false]

theorem trimEnd_eq : Text.trimEnd l = l := by
  obtain ⟨front, last, rfl, hLast⟩ := h
  exact Text.trimEnd_concat hLast front

theorem dropReturn_eq : Text.dropReturn l = l := by
  obtain ⟨front, last, rfl, hLast⟩ := h
  rw [Text.dropReturn, List.getLast?_concat, if_neg]
  rintro ⟨⟩
  exact absurd hLast (by decide)

end EndsVisible

/-! ## The layout of paragraphs -/

theorem ofParagraphs_cons_cons (p q : List Text) (ps : List (List Text)) :
    ofParagraphs (p :: q :: ps) = Text.ofLines p ++ '\n' :: ofParagraphs (q :: ps) := by
  simp only [ofParagraphs, List.flatMap_cons, List.cons_append]

/-- What is written of some lines behind a line, and behind a blank line. The first piece of the lines goes on with the
paragraph, and all others begin one. -/
theorem arrange_started {ls p : List Text} {ps : List (List Text)} (h : ls.splitOnP isBlank = p :: ps) :
    arrange true false ls = Text.ofLines (p.map Text.trimEnd) ++
        (ps.filter (!·.isEmpty)).flatMap (fun q => '\n' :: Text.ofLines (q.map Text.trimEnd)) ∧
      arrange true true ls =
        ((p :: ps).filter (!·.isEmpty)).flatMap fun q => '\n' :: Text.ofLines (q.map Text.trimEnd) := by
  induction ls generalizing p ps with
  | nil =>
    cases h
    exact ⟨rfl, rfl⟩
  | cons l ls ih =>
    obtain ⟨q, qs, hPieces⟩ := List.exists_cons_of_ne_nil (List.splitOnP_ne_nil isBlank ls)
    obtain ⟨hBehind, hGap⟩ := ih hPieces
    rw [List.splitOnP_cons_eq_if_modifyHead, hPieces] at h
    rw [arrange, arrange]
    cases hBlank : isBlank l with
    | true =>
      have hNil := (trimEnd_eq_nil_iff l).mpr hBlank
      rw [hBlank] at h
      cases h
      rw [hNil]
      exact ⟨hGap, hGap⟩
    | false =>
      have hNonempty : (Text.trimEnd l).isEmpty = false := by
        rw [List.isEmpty_eq_false_iff, ne_eq, trimEnd_eq_nil_iff, hBlank]
        exact Bool.false_ne_true
      rw [hBlank] at h
      cases h
      have hLine : Text.trimEnd l ++ '\n' :: arrange true false ls = Text.ofLines ((l :: q).map Text.trimEnd) ++
          (ps.filter (!·.isEmpty)).flatMap (fun q => '\n' :: Text.ofLines (q.map Text.trimEnd)) := by
        rw [hBehind, List.map_cons, Text.ofLines_cons, List.append_assoc, List.cons_append]
      simp only [hNonempty, Bool.false_eq_true, if_false, if_true]
      exact ⟨hLine, congrArg ('\n' :: ·) hLine⟩

theorem arrange_eq {ls : List Text} : arrange false false ls =
    ofParagraphs (((ls.splitOnP isBlank).filter (!·.isEmpty)).map (List.map Text.trimEnd)) := by
  induction ls with
  | nil => rfl
  | cons l ls ih =>
    obtain ⟨p, ps, hPieces⟩ := List.exists_cons_of_ne_nil (List.splitOnP_ne_nil isBlank ls)
    rw [List.splitOnP_cons_eq_if_modifyHead, arrange]
    cases hBlank : isBlank l with
    | true =>
      have hNil := (trimEnd_eq_nil_iff l).mpr hBlank
      rw [hNil]
      exact ih
    | false =>
      have hNonempty : (Text.trimEnd l).isEmpty = false := by
        rw [List.isEmpty_eq_false_iff, ne_eq, trimEnd_eq_nil_iff, hBlank]
        exact Bool.false_ne_true
      have hBehind := (arrange_started hPieces).1
      simp only [hNonempty, Bool.false_eq_true, if_false, hBehind, hPieces]
      simp only [List.modifyHead_cons, List.filter_cons, List.isEmpty_cons, Bool.not_false, if_true, List.map_cons,
        ofParagraphs, Text.ofLines_cons, List.flatMap_map, List.nil_append, List.append_assoc, List.cons_append]

theorem normalize_eq_ofParagraphs (t : Text) :
    normalize t = ofParagraphs ((paragraphs t).map (List.map Text.trimEnd)) := arrange_eq

/-! ## Reading the layout back -/

theorem of_mem_splitOnP {α : Type} {p : α → Bool} {as piece : List α} (h : piece ∈ as.splitOnP p) :
    ∀ a ∈ piece, a ∈ as ∧ p a = false := by
  induction as generalizing piece with
  | nil =>
    rw [List.splitOnP_nil, List.mem_singleton] at h
    simp [h]
  | cons a as ih =>
    obtain ⟨q, qs, hPieces⟩ := List.exists_cons_of_ne_nil (List.splitOnP_ne_nil p as)
    have hLater : ∀ q ∈ as.splitOnP p, ∀ b ∈ q, b ∈ a :: as ∧ p b = false :=
      fun q hq b hb => ⟨List.mem_cons_of_mem a (ih hq b hb).1, (ih hq b hb).2⟩
    rw [List.splitOnP_cons_eq_if_modifyHead] at h
    split at h
    · rcases List.mem_cons.mp h with rfl | h
      · exact List.forall_mem_nil _
      · exact hLater piece h
    · rename_i hKept
      rw [hPieces, List.modifyHead_cons] at h
      rw [hPieces] at hLater
      rcases List.mem_cons.mp h with rfl | h
      · exact List.forall_mem_cons.mpr ⟨⟨List.mem_cons_self, Bool.eq_false_iff.mpr hKept⟩, hLater q List.mem_cons_self⟩
      · exact hLater piece (List.mem_cons_of_mem _ h)

/-- The paragraphs have lines, and these are tidy. -/
def AreTidy (ps : List (List Text)) : Prop := ∀ p ∈ ps, p ≠ [] ∧ ∀ l ∈ p, IsTidy l

theorem areTidy_paragraphs (t : Text) : AreTidy ((paragraphs t).map (List.map Text.trimEnd)) := by
  intro p hp
  obtain ⟨q, hq, rfl⟩ := List.mem_map.mp hp
  obtain ⟨hPiece, hNonempty⟩ := List.mem_filter.mp hq
  refine ⟨by simpa using hNonempty, ?_⟩
  intro l hl
  obtain ⟨m, hm, rfl⟩ := List.mem_map.mp hl
  obtain ⟨hLine, hVisible⟩ := of_mem_splitOnP hPiece m hm
  exact ⟨endsVisible_trimEnd hVisible,
    fun hBreak => Text.newline_not_mem_of_mem_lines hLine (Text.mem_of_mem_trimEnd hBreak)⟩

theorem ofParagraphs_eq_ofLines (ps : List (List Text)) : ofParagraphs ps = Text.ofLines ([[]].intercalate ps) := by
  induction ps with
  | nil => rfl
  | cons p ps ih =>
    cases ps with
    | nil => rw [List.intercalate_singleton, ofParagraphs, List.flatMap_nil, List.append_nil]
    | cons q ps =>
      rw [ofParagraphs_cons_cons, ih, List.intercalate_cons_cons, Text.ofLines_append, Text.ofLines_append,
        List.append_assoc]
      rfl

section

variable {ps : List (List Text)} (h : AreTidy ps)
include h

theorem isTidy_or_eq_nil {l : Text} (hl : l ∈ [[]].intercalate ps) : IsTidy l ∨ l = [] := by
  induction ps with
  | nil => cases hl
  | cons p ps ih =>
    obtain ⟨hFirst, hRest⟩ := List.forall_mem_cons.mp h
    cases ps with
    | nil =>
      rw [List.intercalate_singleton] at hl
      exact .inl (hFirst.2 l hl)
    | cons q ps =>
      rw [List.intercalate_cons_cons, List.mem_append, List.mem_append, List.mem_singleton] at hl
      rcases hl with (hl | hl) | hl
      · exact .inl (hFirst.2 l hl)
      · exact .inr hl
      · exact ih hRest hl

theorem newline_not_mem_intercalate : ∀ l ∈ [[]].intercalate ps, '\n' ∉ l := by
  intro l hl
  rcases isTidy_or_eq_nil h hl with hTidy | rfl
  · exact hTidy.clean
  · exact List.not_mem_nil

theorem lines_ofParagraphs : Text.lines (ofParagraphs ps) = [[]].intercalate ps := by
  have hReturn : ∀ l ∈ [[]].intercalate ps, Text.dropReturn l = l := by
    intro l hl
    rcases isTidy_or_eq_nil h hl with hTidy | rfl
    · exact hTidy.endsVisible.dropReturn_eq
    · rfl
  rw [ofParagraphs_eq_ofLines, Text.lines_ofLines (newline_not_mem_intercalate h), List.map_congr_left hReturn,
    List.map_id']

theorem splitOnP_intercalate (hNonempty : ps ≠ []) : ([[]].intercalate ps).splitOnP isBlank = ps := by
  induction ps with
  | nil => exact absurd rfl hNonempty
  | cons p ps ih =>
    obtain ⟨hFirst, hRest⟩ := List.forall_mem_cons.mp h
    have hPiece : p.splitOnP isBlank = [p] :=
      List.splitOnP_eq_singleton fun l hl => (hFirst.2 l hl).endsVisible.not_isBlank
    cases ps with
    | nil => rw [List.intercalate_singleton, hPiece]
    | cons q ps =>
      rw [List.intercalate_cons_cons, List.append_assoc, List.singleton_append,
        List.splitOnP_append_cons p _ rfl, hPiece, ih hRest (List.cons_ne_nil q ps)]
      rfl

theorem paragraphs_ofParagraphs : paragraphs (ofParagraphs ps) = ps := by
  rw [paragraphs, lines_ofParagraphs h]
  cases hPs : ps with
  | nil => rfl
  | cons p qs =>
    rw [← hPs, splitOnP_intercalate h (by rw [hPs]; exact List.cons_ne_nil p qs)]
    refine List.filter_eq_self.mpr fun q hq => ?_
    rw [Bool.not_eq_true', List.isEmpty_eq_false_iff]
    exact (h q hq).1

theorem normalize_ofParagraphs : normalize (ofParagraphs ps) = ofParagraphs ps := by
  have hTrim : ∀ p ∈ ps, p.map Text.trimEnd = p := fun p hp =>
    (List.map_congr_left fun l hl => ((h p hp).2 l hl).endsVisible.trimEnd_eq).trans (List.map_id' p)
  rw [normalize_eq_ofParagraphs, paragraphs_ofParagraphs h, List.map_congr_left hTrim, List.map_id']

end

/-- The layout of a text, as far as it is seen from the text alone. -/
structure Canonical (t : Text) : Prop where
  trimmed : ∀ l ∈ Text.splitAt '\n' t, ∀ c ∈ l.getLast?, ¬ Text.isWhite c
  starts : ∀ l ∈ (Text.lines t).head?, ¬ isBlank l
  apart : (Text.lines t).IsChain fun l m => ¬ (isBlank l ∧ isBlank m)
  /-- The last line has something visible, and one line break behind it. -/
  ends : t = [] ∨ ∃ front c, t = front ++ [c, '\n'] ∧ ¬ Text.isWhite c

section

variable {ps : List (List Text)} (h : AreTidy ps)
include h

theorem starts_ofParagraphs : ∀ l ∈ (Text.lines (ofParagraphs ps)).head?, ¬ isBlank l := by
  rw [lines_ofParagraphs h]
  cases ps with
  | nil => exact fun l hl => nomatch hl
  | cons p ps =>
    obtain ⟨hNonempty, hTidy⟩ := h p List.mem_cons_self
    obtain ⟨m, ms, rfl⟩ := List.exists_cons_of_ne_nil hNonempty
    have hVisible := (hTidy m List.mem_cons_self).endsVisible.not_isBlank
    intro l hl
    cases ps <;>
    · cases hl
      exact Bool.eq_false_iff.mp hVisible

theorem apart_ofParagraphs : (Text.lines (ofParagraphs ps)).IsChain fun l m => ¬ (isBlank l ∧ isBlank m) := by
  have hStarts := starts_ofParagraphs h
  rw [lines_ofParagraphs h] at hStarts ⊢
  induction ps with
  | nil => exact .nil
  | cons p ps ih =>
    obtain ⟨hFirst, hRest⟩ := List.forall_mem_cons.mp h
    have hVisible : ∀ l ∈ p, ¬ isBlank l := fun l hl => Bool.eq_false_iff.mp (hFirst.2 l hl).endsVisible.not_isBlank
    have hParagraph : p.IsChain fun l m => ¬ (isBlank l ∧ isBlank m) := by
      refine (List.pairwise_of_forall_mem_list ?_).isChain
      exact fun l hl m _ hBoth => hVisible l hl hBoth.1
    cases ps with
    | nil => rwa [List.intercalate_singleton]
    | cons q ps =>
      have hNext := starts_ofParagraphs hRest
      rw [lines_ofParagraphs hRest] at hNext
      rw [List.intercalate_cons_cons, List.append_assoc, List.singleton_append]
      refine List.isChain_append.mpr ⟨hParagraph, List.isChain_cons.mpr ⟨?_, ih hRest hNext⟩, ?_⟩
      · exact fun m hm hBoth => hNext m hm hBoth.2
      · exact fun l hl m _ hBoth => hVisible l (List.mem_of_getLast? hl) hBoth.1

theorem ends_ofParagraphs :
    ofParagraphs ps = [] ∨ ∃ front c, ofParagraphs ps = front ++ [c, '\n'] ∧ ¬ Text.isWhite c := by
  induction ps with
  | nil => exact .inl rfl
  | cons p ps ih =>
    obtain ⟨⟨hNonempty, hTidy⟩, hRest⟩ := List.forall_mem_cons.mp h
    right
    cases ps with
    | nil =>
      obtain ⟨front, last, rfl⟩ := (List.eq_nil_or_concat p).resolve_left hNonempty
      obtain ⟨body, c, hLast, hVisible⟩ := (hTidy last (by simp)).endsVisible
      refine ⟨Text.ofLines front ++ body, c, ?_, Bool.eq_false_iff.mp hVisible⟩
      rw [ofParagraphs, List.concat_eq_append, Text.ofLines_append, Text.ofLines_cons, hLast]
      simp [Text.ofLines]
    | cons q ps =>
      obtain hNil | ⟨front, c, hEq, hVisible⟩ := ih hRest
      · obtain ⟨l, ls, hLines⟩ := List.exists_cons_of_ne_nil (hRest q List.mem_cons_self).1
        rw [ofParagraphs, hLines, Text.ofLines_cons] at hNil
        simp at hNil
      · refine ⟨Text.ofLines p ++ '\n' :: front, c, ?_, hVisible⟩
        rw [ofParagraphs_cons_cons, hEq, List.append_assoc, List.cons_append]

theorem canonical_ofParagraphs : Canonical (ofParagraphs ps) := by
  refine ⟨?_, starts_ofParagraphs h, apart_ofParagraphs h, ends_ofParagraphs h⟩
  intro l hl c hc
  rw [ofParagraphs_eq_ofLines, Text.splitAt_ofLines (newline_not_mem_intercalate h), List.mem_append,
    List.mem_singleton] at hl
  have hLine : IsTidy l ∨ l = [] := hl.elim (isTidy_or_eq_nil h) .inr
  rcases hLine with ⟨⟨front, last, rfl, hVisible⟩, -⟩ | rfl
  · rw [List.getLast?_concat] at hc
    cases hc
    exact Bool.eq_false_iff.mp hVisible
  · cases hc

end

theorem filter_eq_flatten_paragraphs (t : Text) :
    (Text.lines t).filter (!isBlank ·) = (paragraphs t).flatten := by
  have hPieces : ∀ ls : List Text, ls.filter (!isBlank ·) = (ls.splitOnP isBlank).flatten := by
    intro ls
    induction ls with
    | nil => rfl
    | cons l ls ih =>
      obtain ⟨p, ps, hEq⟩ := List.exists_cons_of_ne_nil (List.splitOnP_ne_nil isBlank ls)
      rw [List.splitOnP_cons_eq_if_modifyHead]
      cases hBlank : isBlank l with
      | true => simp [hBlank, ih]
      | false => simp [hBlank, ih, hEq]
  rw [hPieces, paragraphs]
  induction (Text.lines t).splitOnP isBlank with
  | nil => rfl
  | cons p ps ih => cases p <;> simp [ih]

/-- The layout of an accepted source is canonical and keeps its lines that are not blank, trimmed, in their order and
in their paragraphs. It stays as it is if it is accepted itself. -/
theorem format?_canonical {source t : Text} (h : format? source = some t) :
    Canonical t ∧
      (Text.lines t).filter (!isBlank ·) = ((Text.lines source).filter (!isBlank ·)).map Text.trimEnd ∧
      paragraphs t = (paragraphs source).map (List.map Text.trimEnd) ∧
      ((Go.SourceFile.parse t).isSome → format? t = some t) := by
  have hTidy := areTidy_paragraphs source
  have hText : t = ofParagraphs ((paragraphs source).map (List.map Text.trimEnd)) := by
    rw [format?] at h
    split at h
    · cases h
      exact normalize_eq_ofParagraphs source
    · cases h
  have hParagraphs : paragraphs t = (paragraphs source).map (List.map Text.trimEnd) := by
    rw [hText, paragraphs_ofParagraphs hTidy]
  refine ⟨?_, ?_, hParagraphs, ?_⟩
  · rw [hText]
    exact canonical_ofParagraphs hTidy
  · rw [filter_eq_flatten_paragraphs, filter_eq_flatten_paragraphs, hParagraphs, List.map_flatten]
  · intro hParse
    rw [format?, if_pos hParse, hText, normalize_ofParagraphs hTidy]

/-- Blank lines at both ends, in a run and with white space in them, and a line break with a carriage return. -/
def looseSource : Text := "\n\npackage ops  \r\n \n\n\nvar x int\n\nvar y int\nvar z int\n\t\n".toList

def arrangedSource : Text := "package ops\n\nvar x int\n\nvar y int\nvar z int\n".toList

theorem format?_canonical_looseSource : format? looseSource = some arrangedSource ∧ Canonical arrangedSource ∧
    (Text.lines arrangedSource).filter (!isBlank ·) =
      ((Text.lines looseSource).filter (!isBlank ·)).map Text.trimEnd ∧
    paragraphs arrangedSource = (paragraphs looseSource).map (List.map Text.trimEnd) ∧
    ((Go.SourceFile.parse arrangedSource).isSome → format? arrangedSource = some arrangedSource) := by
  have hFormat : format? looseSource = some arrangedSource := by decide +kernel
  exact ⟨hFormat, format?_canonical hFormat⟩

end Layout

namespace Wrapper

open Go

theorem textOf_concat_eof (ls : List Lexeme) (ending : Text) :
    textOf (ls ++ [⟨[.blank ending], .eof⟩]) = textOf ls ++ ending := by
  simp only [textOf, List.flatMap_append, List.flatMap_cons, List.flatMap_nil, Lexeme.text, Trivia.text, Token.text,
    List.append_nil]

/-- The layout takes the empty line at the end of a unit and nothing else. -/
theorem unit_eq_normalize_append {package : Text} {tag : Option Text} {functions : List WrappedFunction}
    (hPackage : IsWord package) (hTag : ∀ t ∈ tag, Constraint.IsAtom t) (hNames : ∀ f ∈ functions, IsWord f.name) :
    unit package tag functions = Layout.normalize (unit package tag functions) ++ ['\n'] := by
  have hClean : ∀ t ∈ tag, '\n' ∉ t := fun t ht => (hTag t ht).not_mem_of_isWhite (by decide)
  have hText := unit_eq_textOf package functions fun t ht => (hTag t ht).trimEnd_append "//go:build ".toList
  have hLayout := normalize_unit hPackage hClean hNames
  rw [fileLexemes, gap, textOf_concat_eof] at hText
  rw [unitLexemes, endLexemes, newLine, textOf_concat_eof] at hLayout
  rw [hLayout, hText, List.append_assoc (textOf _) ['\n'] ['\n']]
  rfl

/-- A unit that can be formatted comes out as it was written, without the line break that ends it. -/
theorem format_unit_eq_dropLast {package : Text} {tag : Option Text} {functions : List WrappedFunction}
    (hPackage : IsWord package) (hTag : ∀ t ∈ tag, Constraint.IsAtom t) (hNames : ∀ f ∈ functions, IsWord f.name)
    {text : Text} (hFormat : Layout.format? (unit package tag functions) = some text) :
    text = (unit package tag functions).dropLast ∧ (unit package tag functions).getLast? = some '\n' := by
  have hText : text = Layout.normalize (unit package tag functions) := by
    rw [Layout.format?] at hFormat
    split at hFormat
    · exact (Option.some.inj hFormat).symm
    · cases hFormat
  have hUnit := unit_eq_normalize_append hPackage hTag hNames
  rw [← hText] at hUnit
  rw [hUnit, List.dropLast_concat, List.getLast?_concat]
  exact ⟨rfl, rfl⟩

theorem format_unit_eq_dropLast_directiveFunctions :
    ∃ text, Layout.format? (unit "ops".toList (some "gantry".toList) directiveFunctions) = some text ∧
      text = (unit "ops".toList (some "gantry".toList) directiveFunctions).dropLast ∧
      (unit "ops".toList (some "gantry".toList) directiveFunctions).getLast? = some '\n' := by
  have hPackage : IsWord "ops".toList := isWord_of_all (by decide) (by decide) (by decide)
  have hTag : ∀ t ∈ some "gantry".toList, Constraint.IsAtom t := by
    rintro t ⟨⟩
    exact ⟨by decide, List.all_eq_true.mp (by decide)⟩
  have hNames : ∀ f ∈ directiveFunctions, IsWord f.name := by
    rw [directiveFunctions, List.forall_mem_singleton]
    exact isWord_of_all (by decide) (by decide) (by decide)
  have hParse : (SourceFile.parse (unit "ops".toList (some "gantry".toList) directiveFunctions)).isSome := by
    decide +kernel
  have hFormat : Layout.format? (unit "ops".toList (some "gantry".toList) directiveFunctions) = some _ := if_pos hParse
  exact ⟨_, hFormat, format_unit_eq_dropLast hPackage hTag hNames hFormat⟩

end Wrapper

end GoCommands
