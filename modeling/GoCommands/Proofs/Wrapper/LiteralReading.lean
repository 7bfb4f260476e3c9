import GoCommands.Proofs.StructTag.Reflected
import GoCommands.Proofs.Wrapper.Quoting

/-! # Written literals as the language reads them

The language's own reader of interpreted literals finds the end of a quoted text where it was written, whatever
follows in the file, and its value is the text.
-/

namespace GoCommands

open Utf8

/-- The value of the literal at the start of a source, and what follows its closing quote. -/
def Go.Interpreted.literal? : Bytes → Option (Bytes × Bytes)
  | [] => none
  | b :: bs =>
    if b == byte '"' then
      (StructTag.Reflected.closing? bs).bind fun (raw, behind) => (value? raw).map fun value => (value, behind)
    else none

namespace Wrapper

open Go.Interpreted

theorem digit?_hexDigit {n : Nat} (h : n < 16) : digit? (byte (Text.hexDigit n)) = some n := by
  revert n
  decide

theorem ascii_hexDigit {n : Nat} (h : n < 16) : (Text.hexDigit n).toNat < 128 := by
  revert n
  decide

theorem visible_hexDigit {n : Nat} (h : n < 16) :
    0x20 ≤ (Text.hexDigit n).toNat ∧ (Text.hexDigit n).toNat ≠ 0x7f ∧
      Text.hexDigit n ≠ '"' ∧ Text.hexDigit n ≠ '\\' ∧ Text.hexDigit n ≠ '\n' := by
  revert n
  decide

/-- A character is written as an escape of one letter, by its code, or as it is. -/
theorem quoteChar_spelling (c : Char) :
    (∃ e, escaped? e = some c ∧ quoteChar c = ['\\', e]) ∨
      (c.toNat < 128 ∧
        quoteChar c = ['\\', 'x', Text.hexDigit (c.toNat / 16), Text.hexDigit (c.toNat % 16)]) ∨
      quoteChar c = [c] ∧ c ≠ '"' ∧ c ≠ '\\' ∧ 0x20 ≤ c.toNat ∧ c.toNat ≠ 0x7f := by
  fun_cases quoteChar c with
  | case1 h => exact .inl ⟨'"', by rw [beq_iff_eq.mp h]; rfl, rfl⟩
  | case2 _ h => exact .inl ⟨'\\', by rw [beq_iff_eq.mp h]; rfl, rfl⟩
  | case3 _ _ h => exact .inl ⟨'n', by rw [beq_iff_eq.mp h]; rfl, rfl⟩
  | case4 _ _ _ h => exact .inl ⟨'r', by rw [beq_iff_eq.mp h]; rfl, rfl⟩
  | case5 _ _ _ _ h => exact .inl ⟨'t', by rw [beq_iff_eq.mp h]; rfl, rfl⟩
  | case6 _ _ _ _ _ hControl =>
    simp only [Bool.or_eq_true, decide_eq_true_eq, beq_iff_eq] at hControl
    exact .inr (.inl ⟨by omega, rfl⟩)
  | case7 hQuote hSlash _ _ _ hControl =>
    simp only [Bool.or_eq_true, decide_eq_true_eq, beq_iff_eq, not_or, Nat.not_lt] at hQuote hSlash hControl
    exact .inr (.inr ⟨rfl, hQuote, hSlash, hControl⟩)

theorem visible_quote (t : Text) : ∀ c ∈ quote t, 0x20 ≤ c.toNat ∧ c.toNat ≠ 0x7f := by
  have hMark : 0x20 ≤ '"'.toNat ∧ '"'.toNat ≠ 0x7f := by decide
  have hSlash : 0x20 ≤ '\\'.toNat ∧ '\\'.toNat ≠ 0x7f := by decide
  have hLetters : ∀ entry ∈ letters, 0x20 ≤ entry.1.toNat ∧ entry.1.toNat ≠ 0x7f := by decide
  have hChar : ∀ d, ∀ c ∈ quoteChar d, 0x20 ≤ c.toNat ∧ c.toNat ≠ 0x7f := by
    intro d
    rcases quoteChar_spelling d with ⟨e, hEscape, hEq⟩ | ⟨hSmall, hEq⟩ | ⟨hEq, -, -, hVisible⟩
    · obtain ⟨entry, hFind, -⟩ := Option.map_eq_some_iff.mp hEscape
      have hLetter := List.find?_some hFind
      rw [beq_iff_eq] at hLetter
      rw [hEq, hLetter]
      exact List.forall_mem_cons.mpr ⟨hSlash, List.forall_mem_singleton.mpr (hLetters entry (List.mem_of_find?_eq_some hFind))⟩
    · have hHigh := visible_hexDigit (n := d.toNat / 16) (by omega)
      have hLow := visible_hexDigit (n := d.toNat % 16) (by omega)
      rw [hEq]
      simp only [List.forall_mem_cons]
      exact ⟨hSlash, by decide, ⟨hHigh.1, hHigh.2.1⟩, ⟨hLow.1, hLow.2.1⟩, List.forall_mem_nil _⟩
    · rw [hEq]
      exact List.forall_mem_singleton.mpr hVisible
  intro c hc
  rw [quote, List.cons_append, List.mem_cons, List.mem_append, List.mem_flatMap, List.mem_singleton] at hc
  rcases hc with rfl | ⟨d, -, hc⟩ | rfl
  · exact hMark
  · exact hChar d c hc
  · exact hMark

theorem escape?_code {n : Nat} (h : n < 128) (t : Text) :
    escape? (encode ('x' :: Text.hexDigit (n / 16) :: Text.hexDigit (n % 16) :: t)) =
      some ([UInt8.ofNat n], encode t) := by
  have hNumber : number? 16 2 0 (byte (Text.hexDigit (n / 16)) :: byte (Text.hexDigit (n % 16)) :: encode t) =
      some (n, encode t) := by
    have hHigh : n / 16 < 16 := by omega
    have hLow : n % 16 < 16 := by omega
    have hSum : (0 * 16 + n / 16) * 16 + n % 16 = n := by omega
    simp only [number?, digit?_hexDigit hHigh, digit?_hexDigit hLow, Option.bind_some, hHigh, hLow, if_true, hSum]
  have hLetter : letter? (byte 'x') = none := by decide
  rw [encode_cons_ascii (by decide), encode_cons_ascii (ascii_hexDigit (by omega)),
    encode_cons_ascii (ascii_hexDigit (by omega)), escape?, hLetter]
  simp only [beq_self_eq_true, if_true, hNumber, Option.map_some]

theorem value?_quoteChar_append (c : Char) (t : Text) :
    value? (encode (quoteChar c ++ t)) = (value? (encode t)).map (String.utf8EncodeChar c ++ ·) := by
  rcases quoteChar_spelling c with ⟨e, hEscape, hEq⟩ | ⟨hSmall, hEq⟩ | ⟨hEq, -, hSlash, hVisible, -⟩
  · rw [hEq, List.cons_append, List.singleton_append, value?_backslash, escape?_of_escaped? hEscape,
      Option.bind_some, encodeChar_ascii (ascii_of_escaped? hEscape).2]
  · have hEscape := escape?_code hSmall t
    rw [hEq]
    simp only [List.cons_append, List.nil_append, value?_backslash, hEscape, Option.bind_some,
      encodeChar_ascii hSmall]
    rfl
  · have hBreak : c ≠ '\n' := by
      rintro rfl
      exact absurd hVisible (by decide)
    rw [hEq, List.singleton_append, value?_cons hBreak hSlash]

theorem valid_quoteChar_append (c : Char) (t : Text) :
    Valid (encode (quoteChar c ++ t)) ↔ Valid (encode t) := by
  rcases quoteChar_spelling c with ⟨e, hEscape, hEq⟩ | ⟨hSmall, hEq⟩ | ⟨hEq, -, hSlash, hVisible, -⟩
  · have hBreak : e ≠ '\n' := by
      rintro rfl
      cases hEscape
    rw [hEq, List.cons_append, List.singleton_append, valid_backslash, escape?_of_escaped? hEscape]
    exact ⟨fun h => h.2.2, fun h => ⟨hBreak, rfl, h⟩⟩
  · obtain ⟨-, -, -, hHighSlash, hHighBreak⟩ := visible_hexDigit (n := c.toNat / 16) (by omega)
    obtain ⟨-, -, -, hLowSlash, hLowBreak⟩ := visible_hexDigit (n := c.toNat % 16) (by omega)
    have hEscape := escape?_code hSmall t
    rw [hEq]
    simp only [List.cons_append, List.nil_append, valid_backslash, hEscape, valid_cons hHighSlash,
      valid_cons hLowSlash]
    exact ⟨fun h => h.2.2.2.2, fun h => ⟨by decide, rfl, hHighBreak, hLowBreak, h⟩⟩
  · have hBreak : c ≠ '\n' := by
      rintro rfl
      exact absurd hVisible (by decide)
    rw [hEq, List.singleton_append, valid_cons hSlash]
    exact and_iff_right hBreak

theorem quoted?_plain_cons {c : Char} (hQuote : c ≠ '"') (hSlash : c ≠ '\\') (t : Text) :
    StructTag.quoted? (c :: t) = (StructTag.quoted? t).map (Prod.map ([c] ++ ·) id) := by
  rw [StructTag.quoted?]
  · cases StructTag.quoted? t <;> rfl
  · exact hQuote
  · rintro d rest rfl
    exact absurd rfl hSlash

theorem quoted?_quoteChar_append (c : Char) (t : Text) :
    StructTag.quoted? (quoteChar c ++ t) = (StructTag.quoted? t).map (Prod.map (quoteChar c ++ ·) id) := by
  have hEscaped : ∀ e u, StructTag.quoted? ('\\' :: e :: u) =
      (StructTag.quoted? u).map (Prod.map (['\\', e] ++ ·) id) := by
    intro e u
    rw [StructTag.quoted?]
    cases StructTag.quoted? u <;> rfl
  rcases quoteChar_spelling c with ⟨e, -, hEq⟩ | ⟨hSmall, hEq⟩ | ⟨hEq, hQuote, hSlash, -⟩
  · rw [hEq]
    exact hEscaped e t
  · obtain ⟨-, -, hHighQuote, hHighSlash, -⟩ := visible_hexDigit (n := c.toNat / 16) (by omega)
    obtain ⟨-, -, hLowQuote, hLowSlash, -⟩ := visible_hexDigit (n := c.toNat % 16) (by omega)
    rw [hEq]
    simp only [List.cons_append, List.nil_append, hEscaped, quoted?_plain_cons hHighQuote hHighSlash,
      quoted?_plain_cons hLowQuote hLowSlash]
    cases StructTag.quoted? t <;> rfl
  · rw [hEq]
    exact quoted?_plain_cons hQuote hSlash t

theorem value?_flatMap_quoteChar (t : Text) : value? (encode (t.flatMap quoteChar)) = some (encode t) := by
  induction t with
  | nil => simp [encode, value?]
  | cons c cs ih => rw [List.flatMap_cons, value?_quoteChar_append, ih, Option.map_some, encode_cons]

theorem valid_flatMap_quoteChar (t : Text) : Valid (encode (t.flatMap quoteChar)) := by
  induction t with
  | nil => exact ⟨List.not_mem_nil, List.forall_mem_nil _⟩
  | cons c cs ih => rwa [List.flatMap_cons, valid_quoteChar_append]

theorem closing?_flatMap_quoteChar (t rest : Text) :
    StructTag.Reflected.closing? (encode (t.flatMap quoteChar ++ '"' :: rest)) =
      some (encode (t.flatMap quoteChar), encode rest) := by
  have hQuoted : StructTag.quoted? (t.flatMap quoteChar ++ '"' :: rest) = some (t.flatMap quoteChar, rest) := by
    induction t with
    | nil => rfl
    | cons c cs ih =>
      rw [List.flatMap_cons, List.append_assoc, quoted?_quoteChar_append, ih]
      rfl
  rw [StructTag.Reflected.closing?_encode, hQuoted]
  rfl

theorem literal?_quote (t rest : Text) :
    literal? (encode (quote t ++ rest)) = some (encode t, encode rest) := by
  have hSource : quote t ++ rest = '"' :: (t.flatMap quoteChar ++ '"' :: rest) := by
    simp only [quote, List.cons_append, List.append_assoc, List.nil_append]
  rw [hSource, encode_cons_ascii (by decide), literal?, if_pos (by decide), closing?_flatMap_quoteChar]
  simp only [Option.bind_some, value?_flatMap_quoteChar, Option.map_some]

/-- A quoted text has its first unescaped quote behind the opening one at its end, no control character, and only
escapes that the language knows. Whatever follows it, the language reads the text as the value of the literal and goes
on behind it. -/
theorem quote_exact (t : Text) :
    (∃ raw, quote t = '"' :: (raw ++ ['"']) ∧
      StructTag.Reflected.closing? (encode (raw ++ ['"'])) = some (encode raw, []) ∧ Valid (encode raw) ∧
        value? (encode raw) = some (encode t)) ∧
      (∀ c ∈ quote t, 0x20 ≤ c.toNat ∧ c.toNat ≠ 0x7f) ∧
      ∀ rest, literal? (encode (quote t ++ rest)) = some (encode t, encode rest) := by
  refine ⟨⟨t.flatMap quoteChar, rfl, ?_, ?_, ?_⟩, visible_quote t, literal?_quote t⟩
  · exact closing?_flatMap_quoteChar t []
  · exact valid_flatMap_quoteChar t
  · exact value?_flatMap_quoteChar t

example : literal? (encode (quote "a\\\"\x07b\n".toList ++ "; x".toList)) =
    some (encode "a\\\"\x07b\n".toList, encode "; x".toList) :=
  by cbv

end Wrapper

end GoCommands
