import GoCommands.Go.Literal
import GoCommands.Proofs.StructTag.Unescape
import GoCommands.Proofs.Text.Lines
import GoCommands.Proofs.Wrapper.Quoting

/-! # The value of a written literal

A quoted text is read back as itself unless it has a control character without a one-letter escape. Such a
character is written in hexadecimal, and the reader of literals keeps this escape as it stands.
-/

namespace GoCommands.Wrapper

open StructTag Go.Lexer

/-- The character is written by its code. -/
def isCoded (c : Char) : Bool :=
  (c.toNat < 0x20 || c.toNat == 0x7f) && !(['\n', '\r', '\t'].contains c)

/-- What is read where a character was written. -/
def readChar (c : Char) : Text := if isCoded c then quoteChar c else [c]

theorem ne_backslash_of_isHex {c : Char} (h : isHex c) : c ≠ '\\' := by
  rintro rfl
  cases h

theorem quoteChar_of_isCoded {c : Char} (h : isCoded c) :
    ∃ high low, isHex high ∧ isHex low ∧ quoteChar c = ['\\', 'x', high, low] := by
  rw [isCoded, Bool.and_eq_true, Bool.not_eq_true', List.contains_eq_mem, decide_eq_false_iff_not] at h
  obtain ⟨hControl, hMark⟩ := h
  have hQuote : c ≠ '"' ∧ c ≠ '\\' := by
    constructor <;> (rintro rfl; cases hControl)
  simp only [List.mem_cons, List.not_mem_nil, or_false, not_or] at hMark
  have hEq : quoteChar c = ['\\', 'x', Text.hexDigit (c.toNat / 16), Text.hexDigit (c.toNat % 16)] := by
    simp only [quoteChar, beq_iff_eq, hQuote, hMark, hControl, if_false, if_true]
  simp only [Bool.or_eq_true, decide_eq_true_eq, beq_iff_eq] at hControl
  exact ⟨_, _, isHex_hexDigit (by omega), isHex_hexDigit (by omega), hEq⟩

theorem unescape_quoteChar_append (c : Char) (t : Text) :
    unescape (quoteChar c ++ t) = readChar c ++ unescape t := by
  rw [readChar]
  split
  · rename_i hCoded
    obtain ⟨high, low, hHigh, hLow, hEq⟩ := quoteChar_of_isCoded hCoded
    have hDigits : unescape (high :: low :: t) = high :: low :: unescape t := by
      rw [unescape_cons (ne_backslash_of_isHex hHigh), unescape_cons (ne_backslash_of_isHex hLow)]
    rw [hEq]
    exact congrArg (['\\', 'x'] ++ ·) hDigits
  · rename_i hPlain
    rw [isCoded, Bool.and_eq_true, not_and, Bool.not_eq_true', List.contains_eq_mem, decide_eq_false_iff_not,
      Decidable.not_not] at hPlain
    fun_cases quoteChar c with
    | case1 hQuote => rw [beq_iff_eq.mp hQuote]; rfl
    | case2 _ hSlash => rw [beq_iff_eq.mp hSlash]; rfl
    | case3 _ _ hMark => rw [beq_iff_eq.mp hMark]; rfl
    | case4 _ _ _ hMark => rw [beq_iff_eq.mp hMark]; rfl
    | case5 _ _ _ _ hMark => rw [beq_iff_eq.mp hMark]; rfl
    | case6 _ _ hBreak hReturn hTab hControl => simp_all
    | case7 _ hSlash => exact unescape_cons (by simpa using hSlash) t

theorem unescape_flatMap_quoteChar (t : Text) : unescape (t.flatMap quoteChar) = t.flatMap readChar := by
  induction t with
  | nil => rfl
  | cons c cs ih => rw [List.flatMap_cons, unescape_quoteChar_append, ih, List.flatMap_cons]

theorem flatMap_readChar_eq_iff (t : Text) : t.flatMap readChar = t ↔ ∀ c ∈ t, isCoded c = false := by
  induction t with
  | nil => simp
  | cons c cs ih =>
    rw [List.flatMap_cons, List.forall_mem_cons, ← ih]
    cases hCoded : isCoded c with
    | true =>
      obtain ⟨high, low, -, -, hEq⟩ := quoteChar_of_isCoded hCoded
      rw [readChar, if_pos hCoded, hEq]
      refine iff_of_false ?_ (by simp)
      rintro hSame
      cases (List.cons.inj hSame).1
      cases hCoded
    | false =>
      rw [readChar, hCoded]
      simp

theorem stringValue_quote (t : Text) : Go.stringValue (.string (quote t)) = some (t.flatMap readChar) := by
  have hAfter : Text.after? ['"'] (quote t) = some (t.flatMap quoteChar ++ ['"']) :=
    Text.after?_eq_some_iff.mpr rfl
  have hBefore : Text.before? ['"'] (t.flatMap quoteChar ++ ['"']) = some (t.flatMap quoteChar) := by
    rw [Text.before?, List.reverse_append, Text.after?_eq_some_iff.mpr rfl, Option.map_some, List.reverse_reverse]
  rw [Go.stringValue, hAfter, Option.bind_some, hBefore, Option.map_some, unescape_flatMap_quoteChar]

/-- Reading a written literal gives back the text exactly if no character of it is written by its code, that is, if
its only control characters are line breaks, carriage returns and tabs. Otherwise the codes stand in the value. -/
theorem stringValue_quote_iff (t : Text) : Go.stringValue (.string (quote t)) = some (t.flatMap readChar) ∧
    (Go.stringValue (.string (quote t)) = some t ↔
      ∀ c ∈ t, c.toNat < 0x20 ∨ c.toNat = 0x7f → c ∈ ['\n', '\r', '\t']) := by
  refine ⟨stringValue_quote t, ?_⟩
  rw [stringValue_quote, Option.some.injEq, flatMap_readChar_eq_iff]
  refine forall₂_congr fun c _ => ?_
  rw [isCoded, Bool.and_eq_false_imp, Bool.not_eq_false', List.contains_eq_mem, decide_eq_true_iff, Bool.or_eq_true,
    decide_eq_true_iff, beq_iff_eq]

/-- A bell is read back as the four characters of its code. -/
theorem stringValue_quote_bell : Go.stringValue (.string (quote ['\x07'])) ≠ some ['\x07'] := by
  decide

end GoCommands.Wrapper
