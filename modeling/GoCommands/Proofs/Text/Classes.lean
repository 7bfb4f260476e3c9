import GoCommands.Constraint.Expr
import GoCommands.Go.Lexer

/-! # Character classes

White space is disjoint from the characters of identifiers and of build tags. Above U+007F this is read
off the tables, where no run of white space meets a run of the others.
-/

namespace GoCommands.Text

/-- No run of one table meets a run of the other. -/
def apart (runs others : List Run) : Bool :=
  runs.all fun (lo, hi, _) => others.all fun (lo', hi', _) => Nat.blt hi lo' || Nat.blt hi' lo

theorem not_onRun_of_apart {runs others : List Run} (h : apart runs others) {n : Nat}
    (hRun : onRun runs n) : ¬ onRun others n := by
  intro hOther
  simp only [onRun, List.any_eq_true, Bool.and_eq_true, decide_eq_true_eq] at hRun hOther
  obtain ⟨r, hr, ⟨hLow, hHigh⟩, -⟩ := hRun
  obtain ⟨s, hs, ⟨hLow', hHigh'⟩, -⟩ := hOther
  have hApart := List.all_eq_true.mp (List.all_eq_true.mp h r hr) s hs
  simp only [Bool.or_eq_true, Nat.blt_eq] at hApart
  omega

/-- A statement about all characters below U+0080 can be decided. -/
theorem ascii_induction {p : Char → Prop} (h : ∀ n < 128, p (Char.ofNat n)) (c : Char)
    (hAscii : c.toNat < 128) : p c := by
  rw [← Char.ofNat_toNat c]
  exact h _ hAscii

theorem classes_apart :
    (∀ n < 128, isIdentifierStart (Char.ofNat n) ∨ isIdentifierPart (Char.ofNat n) ∨
      Constraint.isTagChar (Char.ofNat n) → ¬ isWhite (Char.ofNat n)) ∧
      apart identifierStartRuns whiteSpaceRuns ∧ apart identifierPartRuns whiteSpaceRuns ∧
      apart alphanumericRuns whiteSpaceRuns := by
  decide +kernel

theorem not_isWhite_of_apart (runs : List Run) {p : Char → Bool}
    (hAscii : ∀ n < 128, p (Char.ofNat n) → ¬ isWhite (Char.ofNat n))
    (hTable : ∀ c : Char, ¬ c.toNat < 128 → p c → onRun runs c.toNat)
    (hApart : apart runs whiteSpaceRuns) {c : Char} (h : p c) : ¬ isWhite c := by
  by_cases hSmall : c.toNat < 128
  · exact ascii_induction (p := fun c => p c → ¬ isWhite c) hAscii c hSmall h
  · rw [isWhite, if_neg hSmall]
    exact not_onRun_of_apart hApart (hTable c hSmall h)

theorem not_isWhite_of_isIdentifierStart {c : Char} (h : isIdentifierStart c) : ¬ isWhite c := by
  obtain ⟨hAscii, hApart, -, -⟩ := classes_apart
  refine not_isWhite_of_apart identifierStartRuns (fun n hn h => hAscii n hn (.inl h)) ?_ hApart h
  intro c hSmall h
  rwa [isIdentifierStart, if_neg hSmall] at h

theorem not_isWhite_of_isIdentifierPart {c : Char} (h : isIdentifierPart c) : ¬ isWhite c := by
  obtain ⟨hAscii, -, hApart, -⟩ := classes_apart
  refine not_isWhite_of_apart identifierPartRuns (fun n hn h => hAscii n hn (.inr (.inl h))) ?_ hApart h
  intro c hSmall h
  rwa [isIdentifierPart, if_neg hSmall] at h

theorem not_isWhite_of_isTagChar {c : Char} (h : Constraint.isTagChar c) : ¬ isWhite c := by
  obtain ⟨hAscii, -, -, hApart⟩ := classes_apart
  refine not_isWhite_of_apart alphanumericRuns (fun n hn h => hAscii n hn (.inr (.inr h))) ?_ hApart h
  intro c hSmall h
  have hAscii : ¬ (c = '_' ∨ c = '.') := by
    rintro (rfl | rfl) <;> exact hSmall (by decide)
  rw [Constraint.isTagChar, isAlphanumeric, if_neg hSmall] at h
  simpa [not_or.mp hAscii] using h

end GoCommands.Text
