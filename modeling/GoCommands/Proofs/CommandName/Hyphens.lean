import GoCommands.CommandName
import GoCommands.Proofs.Text.Classes
import Mathlib.Data.List.Chain

/-! # Hyphens of command names

The small form of a character is not empty and has no hyphen unless the character is one. So the hyphens of a command
name are those that start a word, and each has a character before and behind it that is none.
-/

namespace GoCommands

namespace Text

/-- The text character by character in small letters. -/
def lowered (t : Text) : Text := t.flatMap toSmall

theorem toSmall_ne_nil (c : Char) : toSmall c ≠ [] := by
  rw [toSmall]
  split
  · exact List.cons_ne_nil _ _
  · split
    · exact List.cons_ne_nil _ _
    · split <;> exact List.cons_ne_nil _ _

/-- No run of the table leads down to the hyphen. -/
theorem hyphen_lt_smallLetterRuns : ∀ r ∈ smallLetterRuns, Int.ofNat '-'.toNat < Int.ofNat r.1.1 + r.2 := by
  decide +kernel

theorem ofNat_ne_hyphen {n : Nat} (h : '-'.toNat < n) : Char.ofNat n ≠ '-' := by
  intro hEq
  by_cases hValid : n.isValidChar
  · have hChar : Char.ofNat n = Char.ofNatAux n hValid := dif_pos hValid
    have hNat : n = '-'.toNat := congrArg Char.toNat (hChar.symm.trans hEq)
    exact absurd hNat.symm (Nat.ne_of_lt h)
  · have hChar : Char.ofNat n = '\x00' := dif_neg hValid
    rw [hChar] at hEq
    cases hEq

theorem hyphen_not_mem_toSmall {c : Char} (h : c ≠ '-') : '-' ∉ toSmall c := by
  rw [toSmall]
  split
  · rename_i hAscii
    have hLower : ∀ n < 128, Char.ofNat n ≠ '-' → '-' ∉ [(Char.ofNat n).toLower] := by decide +kernel
    exact ascii_induction (p := fun c => c ≠ '-' → '-' ∉ [c.toLower]) hLower c hAscii h
  · split
    · decide
    · split
      · rename_i r shift hFind
        have hRun := List.find?_some hFind
        simp only [onRun, List.any_cons, List.any_nil, Bool.or_false, Bool.and_eq_true, decide_eq_true_eq] at hRun
        have hAbove := hyphen_lt_smallLetterRuns _ (List.mem_of_find?_eq_some hFind)
        have hFrom := hRun.1.1
        rw [List.mem_singleton]
        refine (ofNat_ne_hyphen ?_).symm
        simp only [Int.ofNat_eq_natCast] at hAbove ⊢
        omega
      · rw [List.mem_singleton]
        exact h.symm

end Text

namespace CommandName

/-- What hyphens do not spoil behind another character: none is at the end, and no two are neighbours. -/
structure Spaced (t : Text) : Prop where
  last : t.getLast? ≠ some '-'
  apart : t.IsChain fun a b => ¬ (a = '-' ∧ b = '-')

/-- Every hyphen stands between two other characters. -/
structure Isolated (t : Text) : Prop extends Spaced t where
  head : t.head? ≠ some '-'

theorem isolated_nil : Isolated [] := ⟨⟨by decide, .nil⟩, by decide⟩

theorem filter_kebabFrom (prev : Option Char) {ident : Text} (h : '-' ∉ ident) :
    (kebabFrom prev ident).filter (· != '-') = Text.lowered ident := by
  induction ident generalizing prev with
  | nil => rfl
  | cons c cs ih =>
    rw [List.mem_cons, not_or] at h
    have hMark : ∀ b : Bool, (if b then ['-'] else []).filter (· != '-') = [] := by decide
    have hSmall : (Text.toSmall c).filter (· != '-') = Text.toSmall c := by
      refine List.filter_eq_self.mpr fun d hd => bne_iff_ne.mpr ?_
      rintro rfl
      exact Text.hyphen_not_mem_toSmall (Ne.symm h.1) hd
    rw [kebabFrom, List.filter_append, List.filter_append, hMark, hSmall, ih _ h.2]
    rfl

/-- Deleting the hyphens of a command name leaves its identifier in small letters. -/
theorem filter_ofIdentifier {ident : Text} (h : '-' ∉ ident) :
    (ofIdentifier ident).filter (· != '-') = Text.lowered ident :=
  filter_kebabFrom none h

theorem lowered_eq_of_ofIdentifier_eq {first second : Text} (hFirst : '-' ∉ first) (hSecond : '-' ∉ second)
    (h : ofIdentifier first = ofIdentifier second) : Text.lowered first = Text.lowered second := by
  rw [← filter_ofIdentifier hFirst, h, filter_ofIdentifier hSecond]

theorem Spaced.isolated_append {w t : Text} (hNonempty : w ≠ []) (hw : '-' ∉ w) (h : Spaced t) :
    Isolated (w ++ t) where
  last := by
    rw [List.getLast?_append]
    cases hLast : t.getLast? with
    | none => exact fun hEnd => hw (List.mem_of_getLast? (by simpa using hEnd))
    | some d =>
      rw [Option.some_or, ← hLast]
      exact h.last
  apart := by
    have hPairs : w.Pairwise fun a b => ¬ (a = '-' ∧ b = '-') :=
      List.pairwise_of_forall_mem_list fun a ha b _ hBoth => hw (hBoth.1 ▸ ha)
    refine hPairs.isChain.append h.apart fun a ha b _ hBoth => hw ?_
    rw [← hBoth.1]
    exact List.mem_of_getLast? ha
  head := by
    rw [List.head?_append_of_ne_nil _ hNonempty]
    exact fun hHead => hw (List.mem_of_mem_head? hHead)

theorem Isolated.spaced_hyphen {t : Text} (hNonempty : t ≠ []) (h : Isolated t) : Spaced ('-' :: t) where
  last := by
    rw [List.getLast?_cons_of_ne_nil hNonempty]
    exact h.last
  apart := List.isChain_cons.mpr ⟨fun b hb hBoth => h.head (hBoth.2 ▸ hb), h.apart⟩

theorem Spaced.isolated_toSmall {c : Char} {t : Text} (hc : c ≠ '-') (h : Spaced t) :
    Isolated (Text.toSmall c ++ t) :=
  h.isolated_append (Text.toSmall_ne_nil c) (Text.hyphen_not_mem_toSmall hc)

theorem spaced_kebabFrom (prev : Option Char) {ident : Text} (h : '-' ∉ ident) : Spaced (kebabFrom prev ident) := by
  induction ident generalizing prev with
  | nil => exact isolated_nil.toSpaced
  | cons c cs ih =>
    rw [List.mem_cons, not_or] at h
    have hWord := (ih (some c) h.2).isolated_toSmall (Ne.symm h.1)
    rw [kebabFrom, List.append_assoc]
    split
    · exact hWord.spaced_hyphen (List.append_ne_nil_of_left_ne_nil (Text.toSmall_ne_nil c) _)
    · exact hWord.toSpaced

/-- No word starts at the first character, so no hyphen does. -/
theorem isolated_ofIdentifier {ident : Text} (h : '-' ∉ ident) : Isolated (ofIdentifier ident) := by
  cases ident with
  | nil => exact isolated_nil
  | cons c cs =>
    rw [List.mem_cons, not_or] at h
    rw [ofIdentifier, kebabFrom, startsWord, Bool.and_false]
    exact (spaced_kebabFrom (some c) h.2).isolated_toSmall (Ne.symm h.1)

end CommandName

end GoCommands
