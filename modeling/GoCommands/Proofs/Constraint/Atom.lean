import GoCommands.Constraint.Header
import GoCommands.Proofs.Text.Classes
import GoCommands.Proofs.Text.Lines
import Mathlib.Data.List.TakeWhile

/-! # Constraints that are a single tag

A file whose first line states a single tag is selected by this tag and by no other.
-/

namespace GoCommands

namespace Constraint

/-- The text is a single tag. -/
structure IsAtom (tag : Text) : Prop where
  nonempty : tag ≠ []
  tagChars : ∀ c ∈ tag, isTagChar c

theorem not_operator_of_isTagChar {c : Char} (h : isTagChar c) :
    c ≠ '(' ∧ c ≠ ')' ∧ c ≠ '!' ∧ c ≠ '&' ∧ c ≠ '|' := by
  refine ⟨?_, ?_, ?_, ?_, ?_⟩ <;> (rintro rfl; exact absurd h (by decide))

namespace IsAtom

variable {tag : Text} (h : IsAtom tag)
include h

theorem not_mem_of_isWhite {c : Char} (hWhite : Text.isWhite c) : c ∉ tag :=
  fun hMem => Text.not_isWhite_of_isTagChar (h.tagChars c hMem) hWhite

theorem tokens_eq : tokens 0 tag = .ok [.tag tag] := by
  obtain ⟨c, cs, rfl⟩ := List.exists_cons_of_ne_nil h.nonempty
  obtain ⟨hFirst, hRest⟩ := List.forall_mem_cons.mp h.tagChars
  obtain ⟨hOpen, hClose, hNot, hAnd, hOr⟩ := not_operator_of_isTagChar hFirst
  have hTake : cs.takeWhile isTagChar = cs := List.takeWhile_eq_self_iff.mpr hRest
  have hDrop : cs.dropWhile isTagChar = [] := List.dropWhile_eq_nil_iff.mpr hRest
  have hWhite : Text.isWhite c = false := Bool.eq_false_iff.mpr (Text.not_isWhite_of_isTagChar hFirst)
  rw [tokens.eq_def]
  simp only [hWhite, hFirst, hTake, hDrop, beq_iff_eq, hOpen, hClose, hNot, hAnd, hOr, Bool.or_eq_true,
    or_self, if_false, if_true, Bool.false_eq_true]
  rw [tokens]
  rfl

theorem parse_eq : parse tag = .ok (.tag tag) := by
  rw [parse, h.tokens_eq]
  rfl

theorem exists_concat : ∃ front c, tag = front ++ [c] ∧ Text.isWhite c = false := by
  refine ⟨tag.dropLast, tag.getLast h.nonempty, (List.dropLast_concat_getLast h.nonempty).symm, ?_⟩
  exact Bool.eq_false_iff.mpr (Text.not_isWhite_of_isTagChar (h.tagChars _ (List.getLast_mem h.nonempty)))

/-- Behind other text a tag has nothing to trim at its end. -/
theorem trimEnd_append (front : Text) : Text.trimEnd (front ++ tag) = front ++ tag := by
  obtain ⟨body, c, rfl, hVisible⟩ := h.exists_concat
  rw [← List.append_assoc, Text.trimEnd_concat hVisible]

theorem trimStart_eq : Text.trimStart tag = tag := by
  obtain ⟨c, cs, rfl⟩ := List.exists_cons_of_ne_nil h.nonempty
  exact List.dropWhile_cons_of_neg (h.not_mem_of_isWhite · List.mem_cons_self)

theorem directive?_line : directive? ("//go:build ".toList ++ tag) = some tag := by
  have hAfter : Text.after? "//go:build".toList ("//go:build ".toList ++ tag) = some (' ' :: tag) := rfl
  have hTrim : Text.trim (' ' :: tag) = tag := by
    have hStart : Text.trimStart (' ' :: tag) = Text.trimStart tag :=
      List.dropWhile_cons_of_pos (by decide)
    rw [Text.trim, hStart, h.trimStart_eq]
    exact h.trimEnd_append []
  have hWhite : (' ' :: tag).head?.all Text.isWhite = true := rfl
  rw [directive?, hAfter]
  simp only [hWhite, if_true, hTrim]

theorem headerLine_line : headerLine ("//go:build ".toList ++ tag) = .directive tag := by
  have hTrim : Text.trim ("//go:build ".toList ++ tag) = "//go:build ".toList ++ tag := by
    have hStart : Text.trimStart ("//go:build ".toList ++ tag) = "//go:build ".toList ++ tag := rfl
    rw [Text.trim, hStart, h.trimEnd_append]
  have hNonempty : ("//go:build ".toList ++ tag).isEmpty = false := rfl
  rw [headerLine]
  simp only [hTrim, hNonempty, h.directive?_line, Bool.false_eq_true, if_false]

theorem find?_line (rest : Text) : find? ("//go:build ".toList ++ tag ++ '\n' :: rest) = some tag := by
  have hLine : '\n' ∉ "//go:build ".toList ++ tag := by
    rw [List.mem_append, not_or]
    exact ⟨by decide, h.not_mem_of_isWhite (by decide)⟩
  have hReturn : Text.dropReturn ("//go:build ".toList ++ tag) = "//go:build ".toList ++ tag := by
    obtain ⟨front, c, rfl, hVisible⟩ := h.exists_concat
    have hLast : ("//go:build ".toList ++ (front ++ [c])).getLast? ≠ some '\r' := by
      rw [← List.append_assoc, List.getLast?_concat]
      rintro ⟨⟩
      exact absurd hVisible (by decide)
    rw [Text.dropReturn, if_neg hLast]
  rw [find?, Text.lines_append hLine, hReturn, directiveIn, h.headerLine_line]

/-- A file is selected by the tag in its first line and by no other. -/
theorem selects_line_iff (rest u : Text) :
    selects ("//go:build ".toList ++ tag ++ '\n' :: rest) u ↔ u = tag := by
  rw [selects, h.find?_line]
  simp only [h.parse_eq, eval, beq_iff_eq]
  exact eq_comm

end IsAtom

end Constraint

end GoCommands
