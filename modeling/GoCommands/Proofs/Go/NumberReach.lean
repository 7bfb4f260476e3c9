import GoCommands.Proofs.Text.Classes

/-! # How far a number looks

The length of a number at the start of a text depends on the text up to its first white space only. The readers of
numbers are put together from a few combinators, which keep this property.
-/

namespace GoCommands.Go.Lexer

/-- The text ends, or goes on with white space. -/
def Pauses (t : Text) : Prop := ∀ c ∈ t.head?, Text.isWhite c

theorem Pauses.cases {t : Text} (h : Pauses t) : t = [] ∨ ∃ c cs, t = c :: cs ∧ Text.isWhite c := by
  cases t with
  | nil => exact .inl rfl
  | cons c cs => exact .inr ⟨c, cs, rfl, h c rfl⟩

/-- The length of something at the start of a text that white space ends; it is at most `slack` more than the text
that is left to it. -/
structure Reach (slack : Nat) (length : Text → Nat) : Prop where
  le_length : ∀ v, length v ≤ v.length + slack
  append : ∀ v {w}, Pauses w → length (v ++ w) = length v

/-- Reads on behind a mark, if the text starts with one. -/
def afterMark (isMark : Char → Bool) (behind other : Text → Nat) : Text → Nat
  | c :: cs => if isMark c then behind cs else other (c :: cs)
  | [] => other []

namespace Reach

variable {slack : Nat} {f g h : Text → Nat}

theorem const (n : Nat) : Reach n fun _ => n := ⟨fun _ => Nat.le_add_left _ _, fun _ _ _ => rfl⟩

theorem weaken (hf : Reach slack f) : Reach (slack + 1) f :=
  ⟨fun v => Nat.le_succ_of_le (hf.le_length v), hf.append⟩

theorem plus (n : Nat) (hf : Reach slack f) : Reach (slack + n) fun t => n + f t where
  le_length v := by
    have := hf.le_length v
    omega
  append v _ hw := by rw [hf.append v hw]

theorem max (hf : Reach slack f) (hg : Reach slack g) : Reach slack fun t => Max.max (f t) (g t) where
  le_length v := Nat.max_le.mpr ⟨hf.le_length v, hg.le_length v⟩
  append v _ hw := by rw [hf.append v hw, hg.append v hw]

theorem ifZero {n : Nat} (hf : Reach n f) (hg : Reach slack g) (hh : Reach slack h) :
    Reach slack fun t => if f t = 0 then g t else h t where
  le_length v := by
    split
    · exact hg.le_length v
    · exact hh.le_length v
  append v _ hw := by rw [hf.append v hw, hg.append v hw, hh.append v hw]

/-- What has to be there, with the character before it. -/
theorem orNone (hf : Reach slack f) : Reach (slack + 1) fun t => if f t = 0 then 0 else 1 + f t where
  le_length v := by
    have := hf.le_length v
    split <;> omega
  append v _ hw := by rw [hf.append v hw]

theorem drop_append (hf : Reach 0 f) (v w : Text) : (v ++ w).drop (f v) = v.drop (f v) ++ w :=
  List.drop_append_of_le_length (hf.le_length v)

theorem andThen (hf : Reach 0 f) (hg : Reach slack g) : Reach slack fun t => g (t.drop (f t)) where
  le_length v := by
    have hRest := hg.le_length (v.drop (f v))
    rw [List.length_drop] at hRest
    omega
  append v _ hw := by rw [hf.append v hw, hf.drop_append, hg.append _ hw]

theorem add (hf : Reach 0 f) (hg : Reach slack g) : Reach slack fun t => f t + g (t.drop (f t)) where
  le_length v := by
    have hFirst := hf.le_length v
    have hRest := hg.le_length (v.drop (f v))
    rw [List.length_drop] at hRest
    omega
  append v _ hw := by rw [hf.append v hw, hf.drop_append, hg.append _ hw]

theorem afterMark {isMark : Char → Bool} (hMark : ∀ c, Text.isWhite c → isMark c = false) (hg : Reach (slack + 1) g)
    (hf : Reach slack f) : Reach slack (afterMark isMark g f) where
  le_length v := by
    cases v with
    | nil => exact hf.le_length []
    | cons c cs =>
      have hBehind := hg.le_length cs
      have hOther := hf.le_length (c :: cs)
      rw [List.length_cons] at hOther ⊢
      rw [Lexer.afterMark]
      split <;> omega
  append v w hw := by
    cases v with
    | nil =>
      obtain rfl | ⟨c, cs, rfl, hc⟩ := hw.cases
      · rfl
      · rw [List.nil_append, Lexer.afterMark, hMark c hc]
        exact hf.append [] hw
    | cons c cs =>
      have hOther := hf.append (c :: cs) hw
      rw [List.cons_append] at hOther ⊢
      rw [Lexer.afterMark, Lexer.afterMark, hg.append cs hw, hOther]

end Reach

theorem not_white {d : Char} (hd : Text.isWhite d = false) (c : Char) (hc : Text.isWhite c) : (c == d) = false := by
  rw [beq_eq_false_iff_ne]
  rintro rfl
  exact absurd hc (Bool.eq_false_iff.mp hd)

theorem afterMark_other {d : Char} {t : Text} (h : ∀ rest, t = d :: rest → False) (g f : Text → Nat) :
    afterMark (· == d) g f t = f t := by
  cases t with
  | nil => rfl
  | cons c cs =>
    have hOther : c ≠ d := by
      rintro rfl
      exact h cs rfl
    rw [afterMark, if_neg (by rwa [beq_iff_eq])]

theorem afterMark_char {d : Char} {f g h : Text → Nat} (hMark : ∀ cs, f (d :: cs) = g cs)
    (hOther : ∀ c cs, c ≠ d → f (c :: cs) = h (c :: cs)) (hNil : f [] = h []) :
    f = afterMark (· == d) g h := by
  funext t
  cases t with
  | nil => exact hNil
  | cons c cs =>
    by_cases hEq : c = d
    · rw [hEq, hMark, afterMark, if_pos (beq_self_eq_true d)]
    · rw [hOther c cs hEq, afterMark, if_neg (by rwa [beq_iff_eq])]

/-! ## Digits -/

theorem isHex_of_isDecimal {c : Char} (h : isDecimal c) : isHex c := by
  rw [isHex, show c.isDigit = true from h]
  rfl

theorem not_isHex_of_isWhite {c : Char} (h : Text.isWhite c) : isHex c = false := by
  by_cases hSmall : c.toNat < 128
  · refine Text.ascii_induction (p := fun c => Text.isWhite c → isHex c = false) ?_ c hSmall h
    decide
  · rw [Bool.eq_false_iff]
    intro hHex
    simp only [isHex, Char.isDigit, Bool.or_eq_true, Bool.and_eq_true, decide_eq_true_eq] at hHex
    rcases hHex with (⟨-, hHigh⟩ | ⟨-, hHigh⟩) | ⟨-, hHigh⟩
    · have hBound : c.toNat ≤ 57 := hHigh
      omega
    · have hBound : c.toNat ≤ 102 := hHigh
      omega
    · have hBound : c.toNat ≤ 70 := hHigh
      omega

/-- Digits of some base up to sixteen. -/
def IsDigits (isDigit : Char → Bool) : Prop := ∀ c, isDigit c → isHex c

theorem isDigits_hex : IsDigits isHex := fun _ h => h

theorem isDigits_decimal : IsDigits isDecimal := fun _ h => isHex_of_isDecimal h

theorem isDigits_octal : IsDigits isOctal := by
  intro c h
  simp only [isOctal, Bool.and_eq_true, decide_eq_true_eq] at h
  have hBound : c.toNat ≤ 55 := h.2
  refine Text.ascii_induction (p := fun c => ('0' ≤ c ∧ c ≤ '7') → isHex c) ?_ c (by omega) h
  decide

theorem isDigits_binary : IsDigits isBinary := by
  intro c h
  simp only [isBinary, Bool.or_eq_true, beq_iff_eq] at h
  rcases h with rfl | rfl <;> decide

theorem moreDigits_cons (isDigit : Char → Bool) {c : Char} (h : c ≠ '_') (t : Text) :
    moreDigits isDigit (c :: t) = if isDigit c then 1 + moreDigits isDigit t else 0 := by
  rw [moreDigits]
  rintro d rest rfl
  exact absurd rfl h

namespace IsDigits

variable {isDigit : Char → Bool} (h : IsDigits isDigit)
include h

theorem mark : isDigit '_' = false := Bool.eq_false_iff.mpr fun hDigit => absurd (h '_' hDigit) (by decide)

theorem white (c : Char) (hWhite : Text.isWhite c) : isDigit c = false :=
  Bool.eq_false_iff.mpr fun hDigit => absurd (h c hDigit) (Bool.eq_false_iff.mp (not_isHex_of_isWhite hWhite))

theorem moreDigits_pauses {w : Text} (hw : Pauses w) :
    moreDigits isDigit w = 0 ∧ moreDigits isDigit ('_' :: w) = 0 := by
  obtain rfl | ⟨c, cs, rfl, hc⟩ := hw.cases
  · simp [moreDigits, h.mark]
  · have hMark : c ≠ '_' := by
      rintro rfl
      exact absurd hc (by decide)
    rw [moreDigits_cons isDigit hMark, moreDigits, h.white c hc]
    exact ⟨rfl, rfl⟩

theorem reach_moreDigits : Reach 0 (moreDigits isDigit) where
  le_length v := by
    fun_induction moreDigits isDigit v with
    | case1 d rest hd ih =>
      rw [List.length_cons, List.length_cons]
      omega
    | case3 d rest hOther hd ih =>
      rw [List.length_cons]
      omega
    | case2 | case4 | case5 => exact Nat.zero_le _
  append v w hw := by
    obtain ⟨hEnd, hMarkEnd⟩ := h.moreDigits_pauses hw
    fun_induction moreDigits isDigit v with
    | case1 d rest hd ih => rw [List.cons_append, List.cons_append, moreDigits, if_pos hd, ih]
    | case2 d rest hd => rw [List.cons_append, List.cons_append, moreDigits, if_neg hd]
    | case3 d rest hOther hd ih =>
      have hMark : d ≠ '_' := by
        rintro rfl
        rw [h.mark] at hd
        cases hd
      rw [List.cons_append, moreDigits_cons isDigit hMark, if_pos hd, ih]
    | case4 d rest hOther hd =>
      by_cases hMark : d = '_'
      · cases rest with
        | nil =>
          rw [hMark]
          exact hMarkEnd
        | cons e es => exact (hOther e es hMark rfl).elim
      · rw [List.cons_append, moreDigits_cons isDigit hMark, if_neg hd]
    | case5 => exact hEnd

theorem reach_digits : Reach 0 (digits isDigit) := by
  have hEq : digits isDigit = afterMark isDigit (fun rest => 1 + moreDigits isDigit rest) fun _ => 0 := by
    funext t
    cases t <;> rfl
  rw [hEq]
  exact .afterMark h.white (h.reach_moreDigits.plus 1) (.const 0)

theorem reach_digitsAfterMark : Reach 0 (digitsAfterMark isDigit) := by
  rw [afterMark_char (f := digitsAfterMark isDigit) (d := '_') (h := digits isDigit) _ _ rfl]
  · exact .afterMark (not_white (by decide)) h.reach_digits.orNone h.reach_digits
  · intro cs
    rw [digitsAfterMark]
    split
    · rename_i hZero
      rw [hZero, if_pos rfl]
    · rename_i hSome
      rw [if_neg hSome, Nat.add_comm]
  · intro c cs hc
    rw [digitsAfterMark]
    rintro rest hEq
    exact hc (List.cons.inj hEq).1

end IsDigits

/-! ## Numbers -/

def sign : Text → Nat
  | '+' :: _ | '-' :: _ => 1
  | _ => 0

theorem reach_sign : Reach 0 sign := by
  have hEq : sign = afterMark (fun c => c == '+' || c == '-') (fun _ => 1) fun _ => 0 := by
    funext t
    cases t with
    | nil => rfl
    | cons c cs =>
      rw [sign.eq_def, afterMark]
      split <;> simp_all
  rw [hEq]
  refine .afterMark ?_ (.const 1) (.const 0)
  intro c hc
  rw [not_white (by decide) c hc, not_white (by decide) c hc]
  rfl

/-- A part of `n` characters with `k` in front of it. An empty part takes nothing in front of it. -/
def behind (k : Nat) : Nat → Nat
  | 0 => 0
  | n => k + n

theorem behind_eq (k n : Nat) : behind k n = if n = 0 then 0 else k + n := by
  rw [behind.eq_def]
  split
  · rfl
  · rename_i hSome
    rw [if_neg hSome]

theorem reach_exponent {isLetter : Char → Bool} (hLetter : ∀ c, Text.isWhite c → isLetter c = false) :
    Reach 0 (exponent isLetter) := by
  have hEq : exponent isLetter = afterMark isLetter (fun rest => if digits isDecimal (rest.drop (sign rest)) = 0 then 0
      else 1 + (sign rest + digits isDecimal (rest.drop (sign rest)))) fun _ => 0 := by
    have hCons : ∀ c rest, exponent isLetter (c :: rest) = if isLetter c then
        behind (1 + sign rest) (digits isDecimal (rest.drop (sign rest))) else 0 := fun _ _ => rfl
    funext t
    cases t with
    | nil => rfl
    | cons c cs => rw [hCons, behind_eq, afterMark, Nat.add_assoc]
  have hDigits := isDigits_decimal.reach_digits
  rw [hEq]
  exact .afterMark hLetter ((reach_sign.andThen hDigits).ifZero (Reach.const 0).weaken ((reach_sign.add hDigits).plus 1))
    (.const 0)

theorem reach_decimalExponent : Reach 0 (exponent isDecimalExponent) := by
  refine reach_exponent fun c hc => ?_
  rw [isDecimalExponent, not_white (by decide) c hc, not_white (by decide) c hc]
  rfl

theorem reach_hexExponent : Reach 0 (exponent isHexExponent) := by
  refine reach_exponent fun c hc => ?_
  rw [isHexExponent, not_white (by decide) c hc, not_white (by decide) c hc]
  rfl

theorem reach_decimalInteger : Reach 0 decimalInteger := by
  rw [afterMark_char (f := decimalInteger) (d := '0') (g := fun _ => 1) (h := digits isDecimal)
    (fun _ => rfl) _ rfl]
  · exact .afterMark (not_white (by decide)) (.const 1) isDigits_decimal.reach_digits
  · intro c cs hc
    rw [decimalInteger]
    rintro rest hEq
    exact hc (List.cons.inj hEq).1

theorem reach_zeroInteger : Reach 0 zeroInteger := by
  rw [afterMark_char (f := zeroInteger) (d := '0') (h := fun _ => 0) (fun _ => rfl) _ rfl]
  · exact .afterMark (not_white (by decide)) (isDigits_octal.reach_digitsAfterMark.plus 1) (.const 0)
  · intro c cs hc
    rw [zeroInteger]
    rintro rest hEq
    exact hc (List.cons.inj hEq).1

/-- Letters that follow the zero of a number in another base. -/
def isLetter (small large : Char) (c : Char) : Bool := c == small || c == large

theorem isLetter_white {small large : Char} (hSmall : Text.isWhite small = false) (hLarge : Text.isWhite large = false)
    (c : Char) (hc : Text.isWhite c) : isLetter small large c = false := by
  rw [isLetter, not_white hSmall c hc, not_white hLarge c hc]
  rfl

theorem reach_markedInteger : Reach 0 markedInteger := by
  let marked (isDigit : Char → Bool) (rest : Text) : Nat :=
    if digitsAfterMark isDigit rest = 0 then 0 else 2 + digitsAfterMark isDigit rest
  have hReach : ∀ {isDigit}, IsDigits isDigit → Reach 2 (marked isDigit) := fun h =>
    h.reach_digitsAfterMark.ifZero (Reach.const 0).weaken.weaken (h.reach_digitsAfterMark.plus 2)
  rw [afterMark_char (f := markedInteger) (d := '0') (h := fun _ => 0)
    (g := afterMark (isLetter 'x' 'X') (marked isHex) <| afterMark (isLetter 'o' 'O') (marked isOctal) <|
      afterMark (isLetter 'b' 'B') (marked isBinary) fun _ => 0) _ _ rfl]
  · refine .afterMark (not_white (by decide)) (.afterMark (isLetter_white (by decide) (by decide))
      (hReach isDigits_hex) (.afterMark (isLetter_white (by decide) (by decide)) (hReach isDigits_octal)
        (.afterMark (isLetter_white (by decide) (by decide)) (hReach isDigits_binary) (Reach.const 0).weaken)))
      (.const 0)
  · intro cs
    cases cs with
    | nil => rfl
    | cons c cs =>
      have hBody : markedInteger ('0' :: c :: cs) =
          let body := if isLetter 'x' 'X' c then digitsAfterMark isHex cs
            else if isLetter 'o' 'O' c then digitsAfterMark isOctal cs
            else if isLetter 'b' 'B' c then digitsAfterMark isBinary cs
            else 0
          if body == 0 then 0 else 2 + body := rfl
      simp only [hBody, afterMark, marked, beq_iff_eq]
      split
      · rfl
      split
      · rfl
      split <;> rfl
  · intro c cs hc
    rw [markedInteger]
    rintro d rest hEq
    exact hc (List.cons.inj hEq).1

theorem reach_integer : Reach 0 integer := reach_decimalInteger.max (reach_zeroInteger.max reach_markedInteger)

theorem reach_decimalFloat : Reach 0 decimalFloat := by
  have hDigits := isDigits_decimal.reach_digits
  have hFraction := (hDigits.add reach_decimalExponent).plus 1
  -- What may follow the point, alone and behind digits.
  let fraction (rest : Text) : Nat :=
    1 + (digits isDecimal rest + exponent isDecimalExponent (rest.drop (digits isDecimal rest)))
  let start := afterMark (· == '.') (fun rest => if digits isDecimal rest = 0 then 0 else fraction rest) fun _ => 0
  let tail := afterMark (· == '.') fraction (exponent isDecimalExponent)
  have hStart : Reach 0 start :=
    .afterMark (not_white (by decide)) (hDigits.ifZero (Reach.const 0).weaken hFraction) (.const 0)
  have hTail : Reach 0 tail := .afterMark (not_white (by decide)) hFraction reach_decimalExponent
  have hEq : decimalFloat = fun t => if digits isDecimal t = 0 then start t else
      if tail (t.drop (digits isDecimal t)) = 0 then 0
      else digits isDecimal t + tail (t.drop (digits isDecimal t)) := by
    funext t
    rw [decimalFloat.eq_def]
    split
    · rename_i hZero
      rw [if_pos hZero]
      split
      · split
        · rename_i hNone
          exact (if_pos hNone).symm
        · rename_i hSome
          exact (Nat.add_assoc _ _ _).trans (if_neg hSome).symm
      · rename_i hOther
        exact (afterMark_other (f := fun _ => 0) hOther _).symm
    · rename_i hSome
      rw [if_neg hSome]
      split
      · rename_i rest hRest
        have hPoint : tail ('.' :: rest) = fraction rest := rfl
        rw [hRest, hPoint]
        simp only [fraction]
        rw [if_neg (by omega)]
        omega
      · rename_i hOther
        have hTailEq : tail (t.drop (digits isDecimal t)) = exponent isDecimalExponent (t.drop (digits isDecimal t)) :=
          afterMark_other hOther _ _
        rw [hTailEq]
        split
        · rename_i hNone
          rw [if_pos hNone]
        · rename_i hExponent
          rw [if_neg hExponent]
  rw [hEq]
  exact hDigits.ifZero hStart ((hDigits.andThen hTail).ifZero (.const 0) (hDigits.add hTail))

/-- Hexadecimal digits with a point. -/
def mantissa (t : Text) : Nat :=
  match t.drop (digitsAfterMark isHex t) with
  | '.' :: rest => match digitsAfterMark isHex t, digits isHex rest with
    | 0, 0 => 0
    | _, n => digitsAfterMark isHex t + 1 + n
  | _ => digitsAfterMark isHex t

theorem reach_mantissa : Reach 0 mantissa := by
  have hDigits := isDigits_hex.reach_digits
  have hWhole := isDigits_hex.reach_digitsAfterMark
  let start := afterMark (· == '.') (fun rest => if digits isHex rest = 0 then 0 else 1 + digits isHex rest) fun _ => 0
  let tail := afterMark (· == '.') (fun rest => 1 + digits isHex rest) fun _ => 0
  have hStart : Reach 0 start := .afterMark (not_white (by decide)) hDigits.orNone (.const 0)
  have hTail : Reach 0 tail := .afterMark (not_white (by decide)) (hDigits.plus 1) (.const 0)
  have hEq : mantissa = fun t => if digitsAfterMark isHex t = 0 then start t
      else digitsAfterMark isHex t + tail (t.drop (digitsAfterMark isHex t)) := by
    funext t
    rw [mantissa]
    by_cases hZero : digitsAfterMark isHex t = 0
    · rw [if_pos hZero, hZero, List.drop_zero]
      split
      · rename_i rest
        have hPoint : start ('.' :: rest) = if digits isHex rest = 0 then 0 else 1 + digits isHex rest := rfl
        rw [hPoint]
        cases digits isHex rest with
        | zero => rfl
        | succ n =>
          rw [if_neg (Nat.succ_ne_zero n)]
          exact congrArg (· + (n + 1)) (Nat.zero_add 1)
      · rename_i hOther
        exact (afterMark_other (f := fun _ => 0) hOther _).symm
    · rw [if_neg hZero]
      split
      · rename_i rest hRest
        have hPoint : tail ('.' :: rest) = 1 + digits isHex rest := rfl
        rw [hRest, hPoint]
        split
        · rename_i hNone _
          exact absurd hNone hZero
        · rw [Nat.add_assoc]
      · rename_i hOther
        have hNone : tail (t.drop (digitsAfterMark isHex t)) = 0 := afterMark_other (f := fun _ => 0) hOther _
        rw [hNone, Nat.add_zero]
  rw [hEq]
  exact hWhole.ifZero hStart (hWhole.add hTail)

theorem reach_hexFloat : Reach 0 hexFloat := by
  let body (rest : Text) : Nat :=
    if mantissa rest = 0 then 0
    else if exponent isHexExponent (rest.drop (mantissa rest)) = 0 then 0
    else 2 + (mantissa rest + exponent isHexExponent (rest.drop (mantissa rest)))
  have hZero : Reach 2 fun _ => 0 := (Reach.const 0).weaken.weaken
  have hBody : Reach 2 body := reach_mantissa.ifZero hZero
    ((reach_mantissa.andThen reach_hexExponent).ifZero hZero ((reach_mantissa.add reach_hexExponent).plus 2))
  have hEq : hexFloat = afterMark (· == '0') (afterMark (isLetter 'x' 'X') body fun _ => 0) fun _ => 0 := by
    refine afterMark_char ?_ ?_ rfl
    · intro cs
      cases cs with
      | nil => rfl
      | cons c cs =>
        have hCons : hexFloat ('0' :: c :: cs) = if isLetter 'x' 'X' c then
            if mantissa cs == 0 then 0
            else behind (2 + mantissa cs) (exponent isHexExponent (cs.drop (mantissa cs)))
          else 0 := rfl
        simp only [hCons, behind_eq, afterMark, body, beq_iff_eq, Nat.add_assoc]
    · intro c cs hc
      rw [hexFloat]
      rintro d rest hEq
      exact hc (List.cons.inj hEq).1
  rw [hEq]
  exact .afterMark (not_white (by decide)) (.afterMark (isLetter_white (by decide) (by decide)) hBody
    (Reach.const 0).weaken) (.const 0)

def lengths (t : Text) : List Nat := [integer t, decimalFloat t, hexFloat t, digits isDecimal t]

theorem forall_lengths {p : (Text → Nat) → Prop} (h : ∀ f, Reach 0 f → p f) :
    p integer ∧ p decimalFloat ∧ p hexFloat ∧ p (digits isDecimal) :=
  ⟨h _ reach_integer, h _ reach_decimalFloat, h _ reach_hexFloat, h _ isDigits_decimal.reach_digits⟩

theorem le_of_mem_lengths {v : Text} {n : Nat} (h : n ∈ lengths v) : n ≤ v.length := by
  simp only [lengths, List.mem_cons, List.not_mem_nil, or_false] at h
  obtain ⟨hInteger, hDecimal, hHex, hDigits⟩ := forall_lengths fun f hf => hf.le_length v
  rcases h with rfl | rfl | rfl | rfl
  · exact hInteger
  · exact hDecimal
  · exact hHex
  · exact hDigits

/-- The length with the `i` behind it. -/
def imaginary (t : Text) (n : Nat) : Nat := if n != 0 && (t.drop n).head? == some 'i' then n + 1 else n

theorem imaginary_le {v : Text} {n : Nat} (hn : n ≤ v.length) : imaginary v n ≤ v.length := by
  rw [imaginary]
  split
  · rename_i hHead
    rw [Bool.and_eq_true, beq_iff_eq, List.head?_drop] at hHead
    exact (List.getElem?_eq_some_iff.mp hHead.2).1
  · exact hn

theorem head?_drop_append {d : Char} (hd : Text.isWhite d = false) {v w : Text} (hw : Pauses w) {n : Nat}
    (hn : n ≤ v.length) : (((v ++ w).drop n).head? == some d) = ((v.drop n).head? == some d) := by
  rw [List.drop_append_of_le_length hn]
  cases v.drop n with
  | cons c cs => rfl
  | nil =>
    obtain rfl | ⟨c, cs, rfl, hc⟩ := hw.cases
    · rfl
    · exact not_white hd c hc

theorem foldl_max_le {bound : Nat} (ns : List Nat) {n : Nat} (hn : n ≤ bound) (h : ∀ m ∈ ns, m ≤ bound) :
    ns.foldl Max.max n ≤ bound := by
  induction ns generalizing n with
  | nil => exact hn
  | cons m ms ih =>
    obtain ⟨hm, hms⟩ := List.forall_mem_cons.mp h
    exact ih (Nat.max_le.mpr ⟨hn, hm⟩) hms

theorem numberLength_eq (t : Text) : numberLength t =
    (((lengths t).map (imaginary t)).filter fun n => (t.drop (n - 1)).head? == some 'i').foldl Max.max
      (max (integer t) (max (decimalFloat t) (hexFloat t))) := rfl

theorem reach_numberLength : Reach 0 numberLength := by
  have hCandidate : ∀ {v : Text}, ∀ m ∈ (lengths v).map (imaginary v), m ≤ v.length := by
    intro v m hm
    obtain ⟨n, hn, rfl⟩ := List.mem_map.mp hm
    exact imaginary_le (le_of_mem_lengths hn)
  have hReal := reach_integer.max (reach_decimalFloat.max reach_hexFloat)
  constructor
  · intro v
    exact foldl_max_le _ (hReal.le_length v) fun m hm => hCandidate m (List.mem_filter.mp hm).1
  · intro v w hw
    have hLengths : lengths (v ++ w) = lengths v := by
      obtain ⟨hInteger, hDecimal, hHex, hDigits⟩ := forall_lengths fun f hf => hf.append v hw
      rw [lengths, hInteger, hDecimal, hHex, hDigits, lengths]
    have hMap : (lengths v).map (imaginary (v ++ w)) = (lengths v).map (imaginary v) := by
      refine List.map_congr_left fun n hn => ?_
      rw [imaginary, imaginary, head?_drop_append (by decide) hw (le_of_mem_lengths hn)]
    rw [numberLength_eq, numberLength_eq, hLengths, hMap, hReal.append v hw]
    refine congrArg (List.foldl _ _) (List.filter_congr fun m hm => ?_)
    exact head?_drop_append (by decide) hw (Nat.le_trans (Nat.sub_le m 1) (hCandidate m hm))

end GoCommands.Go.Lexer
