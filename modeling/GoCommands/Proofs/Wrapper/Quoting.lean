import GoCommands.Wrapper.Render
import GoCommands.Proofs.Go.Lexing

/-! # String literals that are written

The lexer reads a quoted text as one literal. An escape of a control character takes all hexadecimal
digits behind it, which are then left out of the body, so the induction is on the length of the text.
-/

namespace GoCommands.Wrapper

open Go.Lexer

theorem isHex_hexDigit {n : Nat} (h : n < 16) : isHex (Text.hexDigit n) := by
  revert n
  decide

theorem quoteChar_cases (c : Char) :
    (∃ e ∈ ['"', '\\', 'n', 'r', 't'], quoteChar c = ['\\', e]) ∨
      (∃ high low, isHex high ∧ isHex low ∧ quoteChar c = ['\\', 'x', high, low]) ∨
      quoteChar c = [c] ∧ c ∉ ['"', '\\', '\n'] := by
  unfold quoteChar
  split
  · exact .inl ⟨'"', by decide, rfl⟩
  split
  · exact .inl ⟨'\\', by decide, rfl⟩
  split
  · exact .inl ⟨'n', by decide, rfl⟩
  split
  · exact .inl ⟨'r', by decide, rfl⟩
  split
  · exact .inl ⟨'t', by decide, rfl⟩
  split
  · rename_i hControl
    simp only [Bool.or_eq_true, decide_eq_true_eq, beq_iff_eq] at hControl
    exact .inr (.inl ⟨_, _, isHex_hexDigit (by omega), isHex_hexDigit (by omega), rfl⟩)
  · refine .inr (.inr ⟨rfl, ?_⟩)
    simp_all

theorem quoteChar_of_isHex {c : Char} (h : isHex c) : quoteChar c = [c] := by
  have hSmall : c.toNat < 128 := by
    simp only [isHex, Char.isDigit, Bool.or_eq_true, Bool.and_eq_true, decide_eq_true_eq] at h
    rcases h with (⟨-, h⟩ | ⟨-, h⟩) | ⟨-, h⟩
    · exact Nat.lt_of_le_of_lt (show c.toNat ≤ 57 from h) (by decide)
    · exact Nat.lt_of_le_of_lt (show c.toNat ≤ 102 from h) (by decide)
    · exact Nat.lt_of_le_of_lt (show c.toNat ≤ 70 from h) (by decide)
  exact Text.ascii_induction (p := fun c => isHex c → quoteChar c = [c]) (by decide) c hSmall h

/-- The body of a literal and what follows it, with the opening digits apart. -/
theorem flatMap_quoteChar_hex (t : Text) :
    t.flatMap quoteChar = t.takeWhile isHex ++ (t.dropWhile isHex).flatMap quoteChar := by
  induction t with
  | nil => rfl
  | cons c cs ih =>
    cases hHex : isHex c with
    | false => simp [hHex]
    | true => simp [hHex, quoteChar_of_isHex hHex, ih]

theorem takeWhile_isHex_quoted (t rest : Text) :
    (t.flatMap quoteChar ++ '"' :: rest).takeWhile isHex = t.takeWhile isHex := by
  induction t with
  | nil => simp [isHex, Char.isDigit]
  | cons c cs ih =>
    cases hHex : isHex c with
    | true => simp [hHex, quoteChar_of_isHex hHex, ih]
    | false =>
      rcases quoteChar_cases c with ⟨e, -, hEq⟩ | ⟨high, low, -, -, hEq⟩ | ⟨hEq, -⟩
      · simp [hHex, hEq, show isHex '\\' = false by decide]
      · simp [hHex, hEq, show isHex '\\' = false by decide]
      · simp [hHex, hEq]

theorem quoted?_plain {c : Char} (h : c ∉ ['"', '\\', '\n']) (fuel : Nat) (t : Text) :
    quoted? (fuel + 1) (c :: t) = (quoted? fuel t).map fun (body, behind) => (c :: body, behind) := by
  simp only [List.mem_cons, List.not_mem_nil, or_false, not_or] at h
  obtain ⟨hQuote, hSlash, hBreak⟩ := h
  rw [quoted?]
  all_goals assumption

theorem escapeLength_hex {high low : Char} (hHigh : isHex high) (hLow : isHex low) (t : Text) :
    escapeLength ('x' :: high :: low :: t) = (t.takeWhile isHex).length + 3 := by
  simp [escapeLength, hHigh, hLow]

theorem quoted?_body (fuel : Nat) (t rest : Text) (hFuel : t.length < fuel) :
    quoted? fuel (t.flatMap quoteChar ++ '"' :: rest) = some (t.flatMap quoteChar ++ ['"'], rest) := by
  induction fuel generalizing t with
  | zero => cases hFuel
  | succ fuel ih =>
    cases t with
    | nil => rfl
    | cons c cs =>
      rw [List.length_cons, Nat.add_lt_add_iff_right] at hFuel
      rcases quoteChar_cases c with ⟨e, he, hEq⟩ | ⟨high, low, hHigh, hLow, hEq⟩ | ⟨hEq, hPlain⟩
      · have hLength : ∀ t, escapeLength (e :: t) = 1 := by
          intro t
          simp only [List.mem_cons, List.not_mem_nil, or_false] at he
          rcases he with rfl | rfl | rfl | rfl | rfl <;> rfl
        have hRest := ih cs hFuel
        rw [List.flatMap_cons, hEq]
        simp [quoted?, hLength, hRest]
      · -- The reader takes the hexadecimal digits of the text as part of the escape and goes on behind them.
        have hRest := ih (cs.dropWhile isHex)
          (Nat.lt_of_le_of_lt (List.dropWhile_suffix isHex).length_le hFuel)
        have hTake := takeWhile_isHex_quoted cs rest
        rw [List.flatMap_cons, hEq]
        simp only [List.cons_append, List.nil_append, quoted?, escapeLength_hex hHigh hLow, hTake]
        rw [flatMap_quoteChar_hex cs]
        simp [hRest]
      · rw [List.flatMap_cons, hEq, List.cons_append, List.nil_append, List.cons_append,
          quoted?_plain hPlain, ih cs hFuel]
        rfl

theorem length_le_flatMap_quoteChar (t : Text) : t.length ≤ (t.flatMap quoteChar).length := by
  induction t with
  | nil => exact Nat.le_refl 0
  | cons c cs ih =>
    have hChar : 1 ≤ (quoteChar c).length := by
      rcases quoteChar_cases c with ⟨e, -, hEq⟩ | ⟨high, low, -, -, hEq⟩ | ⟨hEq, -⟩ <;> simp [hEq]
    simp only [List.flatMap_cons, List.length_append, List.length_cons]
    omega

theorem string?_quote (t rest : Text) : string? (quote t ++ rest) = some (quote t, rest) := by
  have hFuel : t.length < (t.flatMap quoteChar ++ '"' :: rest).length + 1 := by
    have hLength := length_le_flatMap_quoteChar t
    rw [List.length_append]
    omega
  have hBody := quoted?_body _ t rest hFuel
  simp only [quote, List.cons_append, List.append_assoc, List.nil_append, string?, hBody, Option.map_some]

theorem proper_quote (t : Text) : Go.Token.Proper (.string (quote t)) := ⟨rfl, string?_quote t⟩

theorem newline_not_mem_quote (t : Text) : '\n' ∉ quote t := by
  intro hMem
  simp only [quote, List.cons_append, List.mem_cons, List.mem_append, List.mem_flatMap] at hMem
  rcases hMem with hMem | ⟨c, -, hMem⟩ | hMem
  · exact absurd hMem (by decide)
  · rcases quoteChar_cases c with ⟨e, he, hEq⟩ | ⟨high, low, hHigh, hLow, hEq⟩ | ⟨hEq, hPlain⟩
    · rw [hEq] at hMem
      simp only [List.mem_cons, List.not_mem_nil, or_false] at he hMem
      rcases he with rfl | rfl | rfl | rfl | rfl <;> exact absurd hMem (by decide)
    · rw [hEq] at hMem
      have hHex : ∀ d, isHex d → '\n' ≠ d := by
        rintro d hd rfl
        exact absurd hd (by decide)
      simp [hHex high hHigh, hHex low hLow] at hMem
    · rw [hEq] at hMem
      cases List.mem_singleton.mp hMem
      exact hPlain (by decide)
  · exact absurd hMem (by decide)

end GoCommands.Wrapper
