import GoCommands.Proofs.Constraint.Atom
import GoCommands.Proofs.Constraint.Header
import GoCommands.Proofs.Wrapper.Layout

/-! # The tag of a generated file

The header of a generated file ends at its package clause, so neither names nor descriptions can state a
constraint. The tag on the first line is the only one that selects the file.
-/

namespace GoCommands

namespace Constraint

variable {t : Text} {c : Char} (hHead : t.head? = some c) (hWhite : Text.isWhite c = false) (hSlash : c ≠ '/')
include hHead hWhite hSlash

theorem headerLine_eq_code : headerLine t = .code := by
  obtain ⟨cs, rfl⟩ := List.head?_eq_some_iff.mp hHead
  have hTrim : Text.trim (c :: cs) = c :: Text.trimEnd cs := by
    rw [Text.trim, Text.trimStart, List.dropWhile_cons_of_neg (Bool.eq_false_iff.mp hWhite), Text.trimEnd_cons hWhite]
  have hOther : ∀ rest, Text.trim (c :: cs) ≠ '/' :: rest := fun rest hEq =>
    hSlash (List.cons.inj (hTrim.symm.trans hEq)).1
  have hKind := headerLine_cases (c :: cs)
  cases hLine : headerLine (c :: cs) with
  | blank =>
    rw [hLine, hTrim] at hKind
    cases hKind
  | comment =>
    rw [hLine] at hKind
    rcases hKind with ⟨rest, hText⟩ | ⟨rest, behind, hText, -⟩ <;> exact absurd hText (hOther _)
  | opening =>
    rw [hLine] at hKind
    obtain ⟨rest, hText, -⟩ := hKind
    exact absurd hText (hOther _)
  | directive e =>
    rw [hLine] at hKind
    obtain ⟨blank, hText, -⟩ := hKind
    exact absurd hText (hOther _)
  | code => rfl

/-- A text that starts with code has no header. -/
theorem directiveIn_eq_none : directiveIn false (Text.lines t) = none := by
  have hCode : ∀ l more, l.head? = some c → directiveIn false (l :: more) = none := by
    intro l more hLine
    rw [directiveIn, headerLine_eq_code hLine hWhite hSlash]
  by_cases hBreak : '\n' ∈ t
  · obtain ⟨l, rest, rfl, hl⟩ := List.eq_append_cons_of_mem hBreak
    rw [Text.lines_append hl, directiveIn_dropReturn]
    cases l with
    | nil =>
      cases hHead
      exact absurd hWhite (by decide)
    | cons d l => exact hCode _ _ hHead
  · obtain ⟨cs, rfl⟩ := List.head?_eq_some_iff.mp hHead
    rw [Text.lines_of_not_mem hBreak]
    exact hCode _ _ rfl

end Constraint

namespace Wrapper

open Go

theorem exists_text_tagged (package : Text) {tag : Text} (hTag : Constraint.IsAtom tag)
    (functions : List WrappedFunction) : ∃ rest, textOf (unitLexemes package (some tag) functions) =
      "//go:build ".toList ++ tag ++ '\n' :: rest := by
  rw [← hTag.trimEnd_append]
  simp only [unitLexemes, packageLexemes, tagTrivia, textOf, List.cons_append, List.flatMap_cons, List.nil_append,
    Lexeme.text, Trivia.text, List.append_assoc, gap]
  exact ⟨_, rfl⟩

theorem exists_text_untagged (package : Text) (functions : List WrappedFunction) :
    ∃ rest, textOf (unitLexemes package none functions) =
      marker ++ '\n' :: ([] ++ '\n' :: ("package".toList ++ rest)) := by
  simp only [unitLexemes, packageLexemes, tagTrivia, textOf, List.cons_append, List.flatMap_cons, List.nil_append,
    Lexeme.text, Trivia.text, List.append_assoc, gap]
  exact ⟨_, rfl⟩

theorem find?_untagged (rest : Text) :
    Constraint.find? (marker ++ '\n' :: ([] ++ '\n' :: ("package".toList ++ rest))) = none := by
  have hMarker : Constraint.headerLine marker = .comment := by rfl
  have hBlank : Constraint.headerLine [] = .blank := rfl
  have hCode : Constraint.directiveIn false (Text.lines ("package".toList ++ rest)) = none :=
    Constraint.directiveIn_eq_none (c := 'p') rfl (by decide) (by decide)
  rw [Constraint.find?, Text.lines_append (by decide), Constraint.directiveIn_dropReturn, Constraint.directiveIn,
    hMarker, Text.lines_append (by decide), Constraint.directiveIn_dropReturn]
  simp only [Constraint.directiveIn, hBlank, hCode]

theorem selects_normalize_iff {package : Text} {tag : Option Text} {functions : List WrappedFunction}
    (hPackage : IsWord package) (hTag : ∀ t ∈ tag, Constraint.IsAtom t) (hNames : ∀ f ∈ functions, IsWord f.name)
    (u : Text) : Constraint.selects (Layout.normalize (unit package tag functions)) u ↔ tag = some u := by
  have hClean : ∀ t ∈ tag, '\n' ∉ t := fun t ht => (hTag t ht).not_mem_of_isWhite (by decide)
  rw [normalize_unit hPackage hClean hNames]
  cases tag with
  | some tag =>
    obtain ⟨rest, hText⟩ := exists_text_tagged package (hTag tag rfl) functions
    rw [hText, (hTag tag rfl).selects_line_iff, Option.some.injEq, eq_comm]
  | none =>
    obtain ⟨rest, hText⟩ := exists_text_untagged package functions
    rw [hText, Constraint.selects, find?_untagged]
    exact iff_of_false Bool.false_ne_true (Option.some_ne_none u).symm

/-- A unit that can be formatted is selected, in this form, by its own tag and by no other; without a tag it is
selected by none. -/
theorem selects_format_iff {package : Text} {tag : Option Text} {functions : List WrappedFunction}
    (hPackage : IsWord package) (hTag : ∀ t ∈ tag, Constraint.IsAtom t) (hNames : ∀ f ∈ functions, IsWord f.name)
    {text : Text} (hFormat : Layout.format? (unit package tag functions) = some text) (u : Text) :
    Constraint.selects text u ↔ tag = some u := by
  rw [Layout.format?] at hFormat
  split at hFormat
  · cases hFormat
    exact selects_normalize_iff hPackage hTag hNames u
  · cases hFormat

/-- A function that is documented by a directive. -/
def directiveFunctions : List WrappedFunction :=
  [⟨"Build".toList, some "Builds.\n//go:build linux".toList, ⟨true, true⟩⟩]

theorem selects_format_iff_directiveFunctions : ∃ tagged untagged,
    Layout.format? (unit "ops".toList (some "gantry".toList) directiveFunctions) = some tagged ∧
      Layout.format? (unit "ops".toList none directiveFunctions) = some untagged ∧
      (∀ u, Constraint.selects tagged u ↔ some "gantry".toList = some u) ∧
      ∀ u, Constraint.selects untagged u ↔ none = some u := by
  have hPackage : IsWord "ops".toList := isWord_of_all (by decide) (by decide) (by decide)
  have hTag : ∀ t ∈ some "gantry".toList, Constraint.IsAtom t := by
    rintro t ⟨⟩
    exact ⟨by decide, List.all_eq_true.mp (by decide)⟩
  have hNames : ∀ f ∈ directiveFunctions, IsWord f.name := by
    rw [directiveFunctions, List.forall_mem_singleton]
    exact isWord_of_all (by decide) (by decide) (by decide)
  have hTagged : (SourceFile.parse (unit "ops".toList (some "gantry".toList) directiveFunctions)).isSome := by
    decide +kernel
  have hUntagged : (SourceFile.parse (unit "ops".toList none directiveFunctions)).isSome := by
    decide +kernel
  have hFormat : Layout.format? (unit "ops".toList (some "gantry".toList) directiveFunctions) = some _ := if_pos hTagged
  have hFormat' : Layout.format? (unit "ops".toList none directiveFunctions) = some _ := if_pos hUntagged
  exact ⟨_, _, hFormat, hFormat', selects_format_iff hPackage hTag hNames hFormat,
    selects_format_iff hPackage (fun t ht => absurd ht (Option.not_mem_none t)) hNames hFormat'⟩

end Wrapper

end GoCommands
