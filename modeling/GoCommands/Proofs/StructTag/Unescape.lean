import GoCommands.Proofs.Go.Interpreted
import GoCommands.StructTag.Lookup

/-! # Values of a struct tag

The decoder of tag values beside the language's own. It agrees with it on every escape of one letter, and it keeps
what the language does not know. The induction takes a backslash together with the character behind it.
-/

namespace GoCommands.StructTag

open Utf8 Go.Interpreted

theorem unescape_of_escaped? {c d : Char} (h : escaped? c = some d) (t : Text) :
    unescape ('\\' :: c :: t) = d :: unescape t := by
  have hLetters : ∀ entry ∈ letters, unescape ('\\' :: entry.1 :: t) = entry.2 :: unescape t := by
    simp [letters, unescape]
  obtain ⟨entry, hFind, rfl⟩ := Option.map_eq_some_iff.mp h
  have hLetter := List.find?_some hFind
  rw [beq_iff_eq] at hLetter
  rw [hLetter]
  exact hLetters entry (List.mem_of_find?_eq_some hFind)

theorem unescape_of_unknown {c : Char} (h : escaped? c = none) (hQuote : c ≠ '\'') (t : Text) :
    unescape ('\\' :: c :: t) = '\\' :: c :: unescape t := by
  rw [unescape]
  all_goals
    rintro rfl
    first | exact hQuote rfl | cases h

theorem unescape_cons {c : Char} (h : c ≠ '\\') (t : Text) : unescape (c :: t) = c :: unescape t := by
  rw [unescape]
  rintro d rest rfl
  exact absurd rfl h

/-- Where no escape is one by number, decoding replaces what the language knows and keeps everything else. -/
theorem encode_unescape (t : Text) (h : Lettered (encode t)) : encode (unescape t) = kept (encode t) := by
  induction t using escaped_induction with
  | nil => simp [unescape, encode, kept]
  | last =>
    have hBytes : encode ['\\'] = [byte '\\'] := rfl
    simp [unescape, hBytes, kept, escape?]
  | escape c t ih =>
    rw [lettered_backslash] at h
    obtain ⟨⟨hQuote, hEscape⟩, hRest⟩ := h
    cases hLetter : escaped? c with
    | some d =>
      rw [unescape_of_escaped? hLetter, kept_backslash_of_some (escape?_of_escaped? hLetter t),
        encode_cons_ascii (ascii_of_escaped? hLetter).2, ih hRest]
      rfl
    | none =>
      have hUnknown : escape? (encode (c :: t)) = none := by
        rw [hLetter] at hEscape
        exact Option.not_isSome_iff_eq_none.mp fun hKnown => absurd (hEscape hKnown) (by decide)
      have hSlash : c ≠ '\\' := by
        rintro rfl
        cases hLetter
      rw [unescape_of_unknown hLetter hQuote, kept_backslash_of_none hUnknown, kept_cons hSlash,
        encode_cons_ascii (by decide), encode_cons, ih hRest]
  | plain c t hSlash ih =>
    rw [lettered_cons hSlash] at h
    rw [unescape_cons hSlash, encode_cons, ih h, kept_cons hSlash]

end GoCommands.StructTag
