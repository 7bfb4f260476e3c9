import GoCommands.Proofs.StructTag.Unescape
import GoCommands.Proofs.Wrapper.WhiteRuns
import Mathlib.Data.List.Infix

/-! # Texts that the layout keeps

White space at the end of a line and more than one blank line in sequence are what the layout changes inside a text.
The decoder of literals keeps white space as it stands, so a change of the text is a change of its value.
-/

namespace GoCommands.Layout

/-- No line but the last ends in white space, and no two blank lines stand in sequence. -/
structure Steady (t : Text) : Prop where
  trimmed : ∀ c ∈ t, Text.isWhite c → c ≠ '\n' → ¬ [c, '\n'] <:+: t
  single : ¬ ['\n', '\n', '\n'] <:+: t

instance (t : Text) : Decidable (Steady t) :=
  have : Decidable (∀ c ∈ t, Text.isWhite c → c ≠ '\n' → ¬ [c, '\n'] <:+: t) := List.decidableBAll _ t
  decidable_of_iff ((∀ c ∈ t, Text.isWhite c → c ≠ '\n' → ¬ [c, '\n'] <:+: t) ∧ ¬ ['\n', '\n', '\n'] <:+: t)
    ⟨fun h => ⟨h.1, h.2⟩, fun h => ⟨h.trimmed, h.single⟩⟩

theorem infix_append_cons_iff {p a b : Text} {c : Char} (h : c ∉ p) : p <:+: a ++ c :: b ↔ p <:+: a ∨ p <:+: b := by
  constructor
  · rintro ⟨front, back, hEq⟩
    rw [List.append_assoc] at hEq
    rcases List.append_eq_append_iff.mp hEq with ⟨x, rfl, hRest⟩ | ⟨x, rfl, hRest⟩
    · rcases List.append_eq_append_iff.mp hRest with ⟨y, rfl, -⟩ | ⟨y, rfl, hBehind⟩
      · exact .inl ⟨front, y, List.append_assoc _ _ _⟩
      · cases y with
        | nil => exact .inl ⟨front, [], by simp⟩
        | cons d ds =>
          obtain ⟨rfl, -⟩ := List.cons.inj hBehind
          exact (h (List.mem_append_right x List.mem_cons_self)).elim
    · cases x with
      | nil =>
        cases p with
        | nil => exact .inr (List.nil_infix)
        | cons d ds =>
          obtain ⟨rfl, -⟩ := List.cons.inj hRest
          exact (h List.mem_cons_self).elim
      | cons d ds =>
        obtain ⟨-, rfl⟩ := List.cons.inj hRest
        exact .inr ⟨ds, back, List.append_assoc _ _ _⟩
  · rintro (hFirst | hSecond)
    · exact hFirst.trans (List.prefix_append a (c :: b)).isInfix
    · exact hSecond.trans ((List.suffix_cons c b).trans (List.suffix_append a (c :: b))).isInfix

theorem steady_iff {t : Text} : Steady t ↔
    (∀ c, Text.isWhite c → c ≠ '\n' → ¬ [c, '\n'] <:+: t) ∧ ¬ ['\n', '\n', '\n'] <:+: t := by
  constructor
  · intro h
    exact ⟨fun c hWhite hBreak hInfix => h.trimmed c (hInfix.subset List.mem_cons_self) hWhite hBreak hInfix, h.single⟩
  · rintro ⟨hTrimmed, hSingle⟩
    exact ⟨fun c _ => hTrimmed c, hSingle⟩

theorem steady_append_cons {c : Char} (h : Text.isWhite c = false) (a b : Text) :
    Steady (a ++ c :: b) ↔ Steady a ∧ Steady b := by
  have hBreak : c ≠ '\n' := by
    rintro rfl
    exact absurd h (by decide)
  have hPair : ∀ {d}, Text.isWhite d → c ∉ [d, '\n'] := by
    intro d hd
    simp only [List.mem_cons, List.not_mem_nil, or_false, not_or]
    refine ⟨?_, hBreak⟩
    rintro rfl
    exact absurd hd (Bool.eq_false_iff.mp h)
  have hGap : c ∉ ['\n', '\n', '\n'] := by simpa using hBreak
  rw [steady_iff, steady_iff, steady_iff, infix_append_cons_iff hGap, not_or]
  constructor
  · rintro ⟨hTrimmed, hFirst, hSecond⟩
    exact ⟨⟨fun d hd hNot hInfix => hTrimmed d hd hNot ((infix_append_cons_iff (hPair hd)).mpr (.inl hInfix)), hFirst⟩,
      fun d hd hNot hInfix => hTrimmed d hd hNot ((infix_append_cons_iff (hPair hd)).mpr (.inr hInfix)), hSecond⟩
  · rintro ⟨⟨hTrimmed, hFirst⟩, hOther, hSecond⟩
    refine ⟨fun d hd hNot hInfix => ?_, hFirst, hSecond⟩
    exact ((infix_append_cons_iff (hPair hd)).mp hInfix).elim (hTrimmed d hd hNot) (hOther d hd hNot)

theorem steady_of_not_mem {t : Text} (h : '\n' ∉ t) : Steady t :=
  steady_iff.mpr ⟨fun _ _ _ hInfix => h (hInfix.subset (by simp)), fun hInfix => h (hInfix.subset (by simp))⟩

theorem steady_break {t : Text} (h : '\n' ∉ t) : Steady ('\n' :: t) ∧ Steady ('\n' :: '\n' :: t) := by
  have hPair : ∀ c, ¬ [c, '\n'] <:+: t := fun c hInfix => h (hInfix.subset (by simp))
  have hGap : ¬ ['\n', '\n', '\n'] <:+: t := fun hInfix => h (hInfix.subset (by simp))
  have hFirst : ∀ p : Text, ¬ '\n' :: p <+: t := fun p hPrefix => h (hPrefix.subset List.mem_cons_self)
  constructor
  · refine steady_iff.mpr ⟨fun c _ hBreak => ?_, ?_⟩
    · simp [List.infix_cons_iff, List.cons_prefix_cons, hPair, hBreak]
    · simp [List.infix_cons_iff, List.cons_prefix_cons, hGap, hFirst]
  · refine steady_iff.mpr ⟨fun c _ hBreak => ?_, ?_⟩
    · simp [List.infix_cons_iff, List.cons_prefix_cons, hPair, hBreak]
    · simp [List.infix_cons_iff, List.cons_prefix_cons, hGap, hFirst]

theorem press_eq_iff {w : Text} (h : ∀ c ∈ w, Text.isWhite c) : press w = w ↔ Steady w := by
  by_cases hBreak : '\n' ∈ w
  · obtain ⟨front, back, rfl, hBack⟩ := exists_lastBreak hBreak
    obtain ⟨hFront, -⟩ := List.forall_mem_append.mp h
    rw [press_append hBack, List.append_left_inj]
    rcases List.eq_nil_or_concat' front with rfl | ⟨more, c, rfl⟩
    · exact iff_of_true rfl (steady_break hBack).1
    · have hPair : [c, '\n'] <:+: more ++ [c] ++ '\n' :: back := ⟨more, back, by simp⟩
      by_cases hc : c = '\n'
      · rw [hc, if_pos (List.mem_append_right more List.mem_cons_self)]
        rcases List.eq_nil_or_concat' more with rfl | ⟨rest, d, rfl⟩
        · exact iff_of_true rfl (steady_break hBack).2
        · refine iff_of_false ?_ fun hSteady => ?_
          · intro hEq
            have hLength := congrArg List.length hEq
            simp only [List.length_append, List.length_singleton] at hLength
            omega
          · by_cases hd : d = '\n'
            · exact hSteady.single ⟨rest, back, by simp [hd]⟩
            · refine (steady_iff.mp hSteady).1 d (hFront d ?_) hd ⟨rest, '\n' :: back, by simp⟩
              simp
      · refine iff_of_false ?_ fun hSteady => ?_
        · intro hEq
          have hLast := congrArg List.getLast? hEq
          rw [List.getLast?_concat] at hLast
          split at hLast
          · exact hc (Option.some.inj hLast).symm
          · cases hLast
        · exact (steady_iff.mp hSteady).1 c (hFront c (by simp)) hc hPair
  · exact iff_of_true (press_of_not_mem hBreak) (steady_of_not_mem hBreak)

theorem append_cons_eq_iff {a b a' b' : Text} {c : Char} (ha : a'.Sublist a) (hb : b'.Sublist b) :
    a' ++ c :: b' = a ++ c :: b ↔ a' = a ∧ b' = b := by
  constructor
  · intro hEq
    have hFirst := ha.length_le
    have hSecond := hb.length_le
    have hLength := congrArg List.length hEq
    simp only [List.length_append, List.length_cons] at hLength
    obtain ⟨rfl, hRest⟩ := List.append_inj hEq (by omega)
    exact ⟨rfl, (List.cons.inj hRest).2⟩
  · rintro ⟨rfl, rfl⟩
    rfl

/-- The texts that stay as they are between two visible characters. -/
theorem between_eq_iff {held : Text} (hHeld : ∀ c ∈ held, Text.isWhite c) (t : Text) :
    between held t = held ++ t ↔ Steady (held ++ t) := by
  induction t generalizing held with
  | nil =>
    rw [List.append_nil]
    exact press_eq_iff hHeld
  | cons c cs ih =>
    cases hWhite : Text.isWhite c with
    | true =>
      have hLater := ih (List.forall_mem_append.mpr ⟨hHeld, List.forall_mem_singleton.mpr hWhite⟩)
      rw [List.append_assoc, List.singleton_append] at hLater
      rw [between, pressTo, if_pos hWhite]
      exact hLater
    | false =>
      have hRest : (pressTo press [] cs).Sublist cs := pressTo_sublist press press_sublist [] cs
      rw [between, pressTo_cons _ hWhite, append_cons_eq_iff (press_sublist held) hRest,
        steady_append_cons hWhite, press_eq_iff hHeld]
      exact and_congr_right fun _ => ih (List.forall_mem_nil _)

/-! ## Carriage returns -/

theorem filter_press {p : Char → Bool} (hBreak : p '\n') (w : Text) : (press w).filter p = press (w.filter p) := by
  by_cases hMem : '\n' ∈ w
  · obtain ⟨front, back, rfl, hBack⟩ := exists_lastBreak hMem
    have hClean : '\n' ∉ back.filter p := fun hFound => hBack (List.mem_of_mem_filter hFound)
    have hFront : '\n' ∈ front.filter p ↔ '\n' ∈ front := by
      rw [List.mem_filter]
      exact and_iff_left hBreak
    rw [press_append hBack, List.filter_append, List.filter_append, List.filter_cons_of_pos hBreak,
      press_append hClean]
    simp only [hFront]
    split
    · rw [List.filter_cons_of_pos hBreak]
      rfl
    · rfl
  · rw [press_of_not_mem hMem, press_of_not_mem fun hFound => hMem (List.mem_of_mem_filter hFound)]

/-- White space but line breaks can be left out before or after. -/
theorem filter_between {p : Char → Bool} (hBreak : p '\n') (hVisible : ∀ c, Text.isWhite c = false → p c)
    (held t : Text) : (between held t).filter p = between (held.filter p) (t.filter p) := by
  induction t generalizing held with
  | nil => exact filter_press hBreak held
  | cons c cs ih =>
    cases hWhite : Text.isWhite c with
    | true =>
      rw [between, pressTo, if_pos hWhite]
      refine (ih (held ++ [c])).trans ?_
      rw [List.filter_append]
      cases hc : p c with
      | true =>
        rw [List.filter_cons_of_pos hc, List.filter_cons_of_pos hc, between, pressTo, if_pos hWhite]
        rfl
      | false =>
        rw [List.filter_cons_of_neg (by rw [hc]; decide), List.filter_cons_of_neg (by rw [hc]; decide),
          List.filter_nil, List.append_nil]
        rfl
    | false =>
      rw [between, pressTo_cons _ hWhite, List.filter_append, filter_press hBreak,
        List.filter_cons_of_pos (hVisible c hWhite), List.filter_cons_of_pos (hVisible c hWhite), pressTo_cons _ hWhite]
      exact congrArg (press (held.filter p) ++ c :: ·) (ih [])

/-! ## Values -/

open StructTag Go.Interpreted

theorem exists_unescape_escape (c : Char) : ∃ out : Text, out ≠ [] ∧ ∀ t, unescape ('\\' :: c :: t) = out ++ unescape t := by
  cases hLetter : escaped? c with
  | some d => exact ⟨[d], List.cons_ne_nil _ _, unescape_of_escaped? hLetter⟩
  | none =>
    by_cases hQuote : c = '\''
    · rw [hQuote]
      exact ⟨['\''], List.cons_ne_nil _ _, fun _ => rfl⟩
    · exact ⟨['\\', c], List.cons_ne_nil _ _, unescape_of_unknown hLetter hQuote⟩

theorem ne_of_isWhite {c d : Char} (hc : Text.isWhite c) (hd : Text.isWhite d = false) : c ≠ d := by
  rintro rfl
  exact absurd hc (Bool.eq_false_iff.mp hd)

/-- No escape takes white space. -/
theorem unescape_append_cons {c : Char} (h : Text.isWhite c) (t u : Text) :
    unescape (t ++ c :: u) = unescape t ++ c :: unescape u := by
  have hSlash : c ≠ '\\' := ne_of_isWhite h (by decide)
  induction t using escaped_induction with
  | nil => exact unescape_cons hSlash u
  | last =>
    have hUnknown : escaped? c = none := by
      have hLetters : ∀ entry ∈ letters, Text.isWhite entry.1 = false := by decide
      refine Option.map_eq_none_iff.mpr (List.find?_eq_none.mpr fun entry hEntry hMatch => ?_)
      rw [beq_iff_eq] at hMatch
      exact ne_of_isWhite h (hLetters entry hEntry) hMatch
    exact unescape_of_unknown hUnknown (ne_of_isWhite h (by decide)) u
  | escape d t ih =>
    obtain ⟨out, -, hOut⟩ := exists_unescape_escape d
    rw [List.cons_append, List.cons_append, hOut, hOut, ih, List.append_assoc]
  | plain d t hd ih => rw [List.cons_append, unescape_cons hd, unescape_cons hd, ih, List.cons_append]

theorem unescape_append_white {w : Text} (h : ∀ c ∈ w, Text.isWhite c) (hNonempty : w ≠ []) (t u : Text) :
    unescape (t ++ (w ++ u)) = unescape t ++ (w ++ unescape u) := by
  obtain ⟨c, cs, rfl⟩ := List.exists_cons_of_ne_nil hNonempty
  obtain ⟨hFirst, hRest⟩ := List.forall_mem_cons.mp h
  have hMore : unescape (cs ++ u) = cs ++ unescape u := by
    clear h hNonempty
    induction cs with
    | nil => rfl
    | cons d ds ih =>
      obtain ⟨hd, hds⟩ := List.forall_mem_cons.mp hRest
      rw [List.cons_append, unescape_cons (ne_of_isWhite hd (by decide)), ih hds, List.cons_append]
  rw [List.cons_append, unescape_append_cons hFirst, hMore, List.cons_append]

/-- What decoding loses is not lost or won by the layout, in any measure that adds up over the parts of a text. -/
theorem measure_unescape_between {f : Text → Nat} (hf : ∀ a b, f (a ++ b) = f a + f b) {held : Text}
    (hHeld : ∀ c ∈ held, Text.isWhite c) (before t : Text) :
    f (unescape (before ++ between held t)) + f (held ++ t) =
      f (unescape (before ++ (held ++ t))) + f (between held t) := by
  have hPress : ∀ {held : Text}, (∀ c ∈ held, Text.isWhite c) → ∀ before t,
      f (unescape (before ++ (press held ++ t))) + f held = f (unescape (before ++ (held ++ t))) + f (press held) := by
    intro held hHeld before t
    by_cases hNil : held = []
    · rw [hNil, press_nil]
    · rw [unescape_append_white (isWhite_press hHeld) (mt press_eq_nil_iff.mp hNil),
        unescape_append_white hHeld hNil, hf, hf, hf, hf]
      omega
  induction t generalizing held before with
  | nil =>
    have hLast := hPress hHeld before []
    rw [List.append_nil, List.append_nil] at hLast
    rw [List.append_nil]
    exact hLast
  | cons c cs ih =>
    cases hWhite : Text.isWhite c with
    | true =>
      have hLater := ih (List.forall_mem_append.mpr ⟨hHeld, List.forall_mem_singleton.mpr hWhite⟩) before
      rw [List.append_assoc, List.singleton_append] at hLater
      rw [between, pressTo, if_pos hWhite]
      exact hLater
    | false =>
      have hLater := ih (List.forall_mem_nil _) (before ++ (press held ++ [c]))
      have hFirst := hPress hHeld before (c :: cs)
      have hSplit : between held (c :: cs) = press held ++ (c :: between [] cs) := pressTo_cons press hWhite held cs
      have hCons : ∀ t, f (c :: t) = f [c] + f t := fun t => hf [c] t
      simp only [List.append_assoc, List.singleton_append, List.nil_append] at hLater
      rw [hSplit, hf held, hf (press held), hCons cs, hCons (between [] cs)]
      omega

theorem length_unescape_le (t u : Text) : (unescape t).length ≤ (unescape (t ++ u)).length := by
  induction t using escaped_induction with
  | nil => exact Nat.zero_le _
  | last =>
    cases u with
    | nil => exact Nat.le_refl _
    | cons c cs =>
      obtain ⟨out, hNonempty, hOut⟩ := exists_unescape_escape c
      have hPos := List.length_pos_iff.mpr hNonempty
      have hSlash : (unescape ['\\']).length = 1 := rfl
      rw [List.cons_append, List.nil_append, hOut, List.length_append, hSlash]
      omega
  | escape c t ih =>
    obtain ⟨out, -, hOut⟩ := exists_unescape_escape c
    rw [List.cons_append, List.cons_append, hOut, hOut, List.length_append, List.length_append]
    omega
  | plain c t hc ih =>
    rw [List.cons_append, unescape_cons hc, unescape_cons hc, List.length_cons, List.length_cons]
    omega

/-- A quote in the text is one in the value. -/
theorem count_unescape_lt (t u : Text) : (unescape t).count '"' < (unescape (t ++ '"' :: u)).count '"' := by
  induction t using escaped_induction with
  | nil =>
    rw [List.nil_append, unescape_cons (by decide), List.count_cons_self]
    exact Nat.succ_pos _
  | last =>
    have hQuote : unescape (['\\'] ++ '"' :: u) = '"' :: unescape u := rfl
    rw [hQuote, List.count_cons_self]
    exact Nat.succ_pos _
  | escape c t ih =>
    obtain ⟨out, -, hOut⟩ := exists_unescape_escape c
    rw [List.cons_append, List.cons_append, hOut, hOut, List.count_append, List.count_append]
    omega
  | plain c t hc ih =>
    rw [List.cons_append, unescape_cons hc, unescape_cons hc, List.count_cons, List.count_cons]
    omega

theorem count_between {c : Char} (hVisible : Text.isWhite c = false) {held : Text} (hHeld : ∀ d ∈ held, Text.isWhite d)
    (t : Text) : (between held t).count c = (held ++ t).count c := by
  have hNone : ∀ {w : Text}, (∀ d ∈ w, Text.isWhite d) → w.count c = 0 := fun hw =>
    List.count_eq_zero_of_not_mem fun hMem => absurd (hw c hMem) (Bool.eq_false_iff.mp hVisible)
  induction t generalizing held with
  | nil =>
    rw [List.append_nil, hNone hHeld]
    exact hNone (isWhite_press hHeld)
  | cons d ds ih =>
    cases hWhite : Text.isWhite d with
    | true =>
      have hLater := ih (List.forall_mem_append.mpr ⟨hHeld, List.forall_mem_singleton.mpr hWhite⟩)
      rw [List.append_assoc, List.singleton_append] at hLater
      rw [between, pressTo, if_pos hWhite]
      exact hLater
    | false =>
      have hLater : (between [] ds).count c = ds.count c := ih (List.forall_mem_nil _)
      have hSplit : between held (d :: ds) = press held ++ (d :: between [] ds) := pressTo_cons press hWhite held ds
      rw [hSplit, List.count_append, List.count_append, hNone hHeld, hNone (isWhite_press hHeld), List.count_cons,
        List.count_cons, hLater]

/-- A literal that the layout changes does not keep its value, wherever its end is found in the new text. -/
theorem unescape_ne_of_not_steady {inner : Text} (h : ¬ Steady inner) {other rest behind : Text}
    (hText : other ++ '"' :: rest = between [] inner ++ '"' :: behind) : unescape other ≠ unescape inner := by
  have hNe : between [] inner ≠ inner := mt (between_eq_iff (List.forall_mem_nil _) inner).mp h
  have hShorter : (between [] inner).length < inner.length := by
    have hSublist : (between [] inner).Sublist inner := pressTo_sublist press press_sublist [] inner
    exact Nat.lt_of_le_of_ne hSublist.length_le fun hEq => hNe (hSublist.eq_of_length hEq)
  have hLength := measure_unescape_between (f := List.length) (fun _ _ => List.length_append) (List.forall_mem_nil _) []
    inner
  have hCount := measure_unescape_between (f := List.count '"') (fun _ _ => List.count_append) (List.forall_mem_nil _) []
    inner
  have hQuotes : (between [] inner).count '"' = inner.count '"' := count_between (by decide) (List.forall_mem_nil _) inner
  simp only [List.nil_append] at hLength hCount
  intro hEq
  rw [← hEq] at hLength hCount
  rcases List.append_eq_append_iff.mp hText with ⟨more, hMore, -⟩ | ⟨more, rfl, hMore⟩
  · have hPrefix := length_unescape_le other more
    rw [← hMore] at hPrefix
    omega
  · cases more with
    | nil =>
      rw [List.append_nil] at hLength
      omega
    | cons c cs =>
      obtain ⟨rfl, -⟩ := List.cons.inj hMore
      have hMoreQuotes := count_unescape_lt (between [] inner) cs
      omega

end GoCommands.Layout
