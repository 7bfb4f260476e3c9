import GoCommands.Text.Basic
import Mathlib.Data.List.DropRight
import Mathlib.Data.List.TakeDrop
import Mathlib.Data.List.TakeWhile

/-! # Parts of a text: pieces, lines, starts and ends -/

namespace GoCommands.Text

/-- A text is cut where a class of characters ends. -/
theorem cut_append {p : Char → Bool} {front rest : Text} (hFront : ∀ c ∈ front, p c)
    (hRest : ∀ c ∈ rest.head?, p c = false) :
    (front ++ rest).takeWhile p = front ∧ (front ++ rest).dropWhile p = rest := by
  rw [List.takeWhile_append_of_pos hFront, List.dropWhile_append_of_pos hFront]
  cases rest with
  | nil => exact ⟨List.append_nil front, rfl⟩
  | cons c cs =>
    have hStop : ¬ p c := Bool.eq_false_iff.mp (hRest c rfl)
    rw [List.takeWhile_cons_of_neg hStop, List.dropWhile_cons_of_neg hStop, List.append_nil]
    exact ⟨rfl, rfl⟩

theorem cut_append_cons {sep : Char} {front : Text} (h : sep ∉ front) (rest : Text) :
    (front ++ sep :: rest).takeWhile (· != sep) = front ∧ (front ++ sep :: rest).dropWhile (· != sep) = sep :: rest := by
  refine cut_append (fun c hc => bne_iff_ne.mpr (ne_of_mem_of_not_mem hc h)) ?_
  rintro c ⟨⟩
  exact bne_self_eq_false sep

theorem head?_dropWhile (p : Char → Bool) (t : Text) : ∀ c ∈ (t.dropWhile p).head?, p c = false := by
  have hNot := List.head?_dropWhile_not p t
  intro c hc
  rw [hc] at hNot
  exact hNot

/-- Induction on a text up to the end of a block comment. -/
theorem commentEnd_induction {p : Text → Prop} (nil : p []) (close : ∀ rest, p ('*' :: '/' :: rest))
    (cons : ∀ c cs, (∀ rest, c = '*' → cs = '/' :: rest → False) → p cs → p (c :: cs)) (t : Text) : p t :=
  afterCommentEnd?.induct p nil close cons t

theorem afterCommentEnd?_cons {c : Char} {cs : Text} (h : ∀ rest, c = '*' → cs = '/' :: rest → False) :
    afterCommentEnd? (c :: cs) = afterCommentEnd? cs :=
  afterCommentEnd?.eq_3 c cs h

theorem splitAt_append (sep : Char) (front rest : Text) :
    splitAt sep (front ++ sep :: rest) = splitAt sep front ++ splitAt sep rest := by
  induction front with
  | nil => simp [splitAt]
  | cons c cs ih =>
    obtain ⟨piece, pieces, hPieces⟩ := List.exists_cons_of_ne_nil (splitAt_ne_nil sep cs)
    rw [List.cons_append, splitAt, splitAt, ih, hPieces]
    split <;> rfl

theorem splitAt_of_not_mem {sep : Char} {t : Text} (h : sep ∉ t) : splitAt sep t = [t] := by
  induction t with
  | nil => rfl
  | cons c cs ih =>
    obtain ⟨hFirst, hRest⟩ := not_or.mp (mt List.mem_cons.mpr h)
    rw [splitAt, ih hRest, if_neg (by simpa using Ne.symm hFirst)]

theorem splitAt_joinWith {sep : Char} {pieces : List Text} (hPieces : pieces ≠ [])
    (hSep : ∀ piece ∈ pieces, sep ∉ piece) : splitAt sep (joinWith [sep] pieces) = pieces := by
  induction pieces with
  | nil => exact absurd rfl hPieces
  | cons piece pieces ih =>
    obtain ⟨hFirst, hRest⟩ := List.forall_mem_cons.mp hSep
    cases pieces with
    | nil => exact splitAt_of_not_mem hFirst
    | cons next pieces =>
      have hJoin : joinWith [sep] (piece :: next :: pieces) =
          piece ++ sep :: joinWith [sep] (next :: pieces) := List.append_assoc ..
      rw [hJoin, splitAt_append, splitAt_of_not_mem hFirst, ih (List.cons_ne_nil _ _) hRest]
      rfl

theorem not_mem_of_mem_splitAt {sep : Char} {t piece : Text} (h : piece ∈ splitAt sep t) : sep ∉ piece := by
  induction t generalizing piece with
  | nil =>
    rw [splitAt, List.mem_singleton] at h
    simp [h]
  | cons c cs ih =>
    obtain ⟨first, pieces, hPieces⟩ := List.exists_cons_of_ne_nil (splitAt_ne_nil sep cs)
    rw [hPieces] at ih
    rw [splitAt, hPieces] at h
    split at h
    · rcases List.mem_cons.mp h with rfl | h
      · simp
      · exact ih h
    · rename_i hFirst
      rcases List.mem_cons.mp h with rfl | h
      · rw [List.mem_cons, not_or]
        exact ⟨fun hEq => hFirst (beq_iff_eq.mpr hEq.symm), ih List.mem_cons_self⟩
      · exact ih (List.mem_cons_of_mem _ h)

theorem splitOnce?_eq_some_iff {sep : Char} {t front back : Text} :
    splitOnce? sep t = some (front, back) ↔ t = front ++ sep :: back ∧ sep ∉ front := by
  rw [splitOnce?, List.span_eq_takeWhile_dropWhile]
  constructor
  · intro h
    split at h
    · rename_i before c behind hSpan
      obtain ⟨hBefore, hBehind⟩ := Prod.mk.inj hSpan
      obtain ⟨rfl, rfl⟩ := Prod.mk.inj (Option.some.inj h)
      obtain rfl : c = sep := bne_eq_false_iff_eq.mp (head?_dropWhile (· != sep) t c (by rw [hBehind]; rfl))
      constructor
      · rw [← hBefore, ← hBehind, List.takeWhile_append_dropWhile]
      · intro hMem
        rw [← hBefore] at hMem
        simpa using List.mem_takeWhile_imp hMem
    · cases h
  · rintro ⟨rfl, hFront⟩
    obtain ⟨hTake, hDrop⟩ := cut_append_cons hFront back
    rw [hTake, hDrop]

theorem splitOnce?_eq_none_iff {sep : Char} {t : Text} : splitOnce? sep t = none ↔ sep ∉ t := by
  constructor
  · intro hNone hMem
    obtain ⟨front, back, rfl, hFront⟩ := List.eq_append_cons_of_mem hMem
    rw [splitOnce?_eq_some_iff.mpr ⟨rfl, hFront⟩] at hNone
    cases hNone
  · intro hMem
    cases hSplit : splitOnce? sep t with
    | none => rfl
    | some parts =>
      obtain ⟨rfl, -⟩ := splitOnce?_eq_some_iff.mp hSplit
      exact absurd (by simp) hMem

/-- A line at the start of a text. -/
theorem lines_append {l : Text} (h : '\n' ∉ l) (rest : Text) :
    lines (l ++ '\n' :: rest) = dropReturn l :: lines rest := by
  obtain ⟨piece, pieces, hPieces⟩ := List.exists_cons_of_ne_nil (splitAt_ne_nil '\n' rest)
  rw [lines, lines, splitAt_append, splitAt_of_not_mem h, hPieces]
  rfl

/-- Whole lines in front of a text. -/
theorem lines_append_lines {front : Text} (h : front.getLast? = some '\n') (rest : Text) :
    lines (front ++ rest) = lines front ++ lines rest := by
  obtain ⟨body, rfl⟩ := List.getLast?_eq_some_iff.mp h
  have hLines : ∀ t, lines ((body ++ ['\n']) ++ t) = (splitAt '\n' body).map dropReturn ++ lines t := by
    intro t
    obtain ⟨piece, pieces, hPieces⟩ := List.exists_cons_of_ne_nil (splitAt_ne_nil '\n' t)
    rw [List.append_assoc, List.singleton_append, lines, lines, splitAt_append, hPieces,
      List.dropLast_append_of_ne_nil (List.cons_ne_nil _ _), List.map_append, List.append_assoc, List.getLast?_append,
      List.getLast?_cons]
    rfl
  have hFront := hLines []
  rw [List.append_nil] at hFront
  rw [hLines, hFront, List.append_assoc]
  rfl

theorem lines_of_not_mem {l : Text} (h : '\n' ∉ l) : lines l = if l.isEmpty then [] else [l] := by
  rw [lines, splitAt_of_not_mem h]
  rfl

/-- Induction on the lines of a text; the last one may be unfinished. -/
theorem lines_induction {p : Text → Prop} (last : ∀ l, '\n' ∉ l → p l)
    (line : ∀ l rest, '\n' ∉ l → p rest → p (l ++ '\n' :: rest)) (t : Text) : p t := by
  induction hLength : t.length using Nat.strongRecOn generalizing t with
  | ind n ih =>
    by_cases hMem : '\n' ∈ t
    · obtain ⟨l, rest, rfl, hClean⟩ := List.eq_append_cons_of_mem hMem
      refine line l rest hClean (ih rest.length ?_ rest rfl)
      rw [← hLength, List.length_append, List.length_cons]
      omega
    · exact last t hMem

theorem trimEnd_cons {c : Char} (h : isWhite c = false) (t : Text) : trimEnd (c :: t) = c :: trimEnd t := by
  rw [trimEnd, trimEnd, List.reverse_cons, List.dropWhile_append]
  cases hRest : t.reverse.dropWhile isWhite with
  | nil => simp [h]
  | cons d ds => simp

theorem trimEnd_concat {c : Char} (h : isWhite c = false) (t : Text) : trimEnd (t ++ [c]) = t ++ [c] := by
  simp [trimEnd, h]

theorem trimEnd_append_of_visible {front : Text} (h : ∀ c ∈ front, isWhite c = false) (t : Text) :
    trimEnd (front ++ t) = front ++ trimEnd t := by
  induction front with
  | nil => rfl
  | cons c cs ih =>
    obtain ⟨hFirst, hRest⟩ := List.forall_mem_cons.mp h
    rw [List.cons_append, trimEnd_cons hFirst, ih hRest, List.cons_append]

theorem trimEnd_append_white (t : Text) {blank : Text} (h : ∀ c ∈ blank, isWhite c) :
    trimEnd (t ++ blank) = trimEnd t := by
  have hReverse : ∀ c ∈ blank.reverse, isWhite c := fun c hc => h c (List.mem_reverse.mp hc)
  rw [trimEnd, trimEnd, List.reverse_append, List.dropWhile_append_of_pos hReverse]

theorem mem_of_mem_trimEnd {c : Char} {t : Text} (h : c ∈ trimEnd t) : c ∈ t := by
  have hMem := (List.dropWhile_suffix isWhite).subset (List.mem_reverse.mp h)
  exact List.mem_reverse.mp hMem

theorem trimEnd_dropReturn (t : Text) : trimEnd (dropReturn t) = trimEnd t := by
  rw [dropReturn]
  split
  · rename_i hLast
    obtain ⟨front, rfl⟩ : ∃ front, t = front ++ ['\r'] := List.getLast?_eq_some_iff.mp hLast
    have hWhite : isWhite '\r' := by decide
    simp [trimEnd, hWhite]
  · rfl

theorem exists_trim (t : Text) : ∃ before behind, t = before ++ trim t ++ behind ∧
    (∀ c ∈ before, isWhite c) ∧ ∀ c ∈ behind, isWhite c := by
  refine ⟨t.takeWhile isWhite, ((trimStart t).reverse.takeWhile isWhite).reverse, ?_, ?_, ?_⟩
  · rw [List.append_assoc, trim, trimEnd, ← List.reverse_append, List.takeWhile_append_dropWhile,
      List.reverse_reverse, trimStart, List.takeWhile_append_dropWhile]
  · exact fun c hc => List.mem_takeWhile_imp hc
  · exact fun c hc => List.mem_takeWhile_imp (List.mem_reverse.mp hc)

theorem isWhite_of_trim_eq_nil {t : Text} (h : trim t = []) : ∀ c ∈ t, isWhite c := by
  obtain ⟨before, behind, hText, hBefore, hBehind⟩ := exists_trim t
  rw [hText, h, List.append_nil, List.forall_mem_append]
  exact ⟨hBefore, hBehind⟩

theorem trim_eq_nil {t : Text} (h : ∀ c ∈ t, isWhite c) : trim t = [] := by
  rw [trim, trimStart, List.dropWhile_eq_nil_iff.mpr h]
  rfl

theorem trim_dropReturn (t : Text) : trim (dropReturn t) = trim t := by
  have hStart : ∀ front : Text, trimEnd (trimStart (front ++ ['\r'])) = trimEnd (trimStart front) := by
    intro front
    rw [trimStart, List.dropWhile_append]
    split
    · rename_i hNil
      rw [trimStart, List.isEmpty_iff.mp hNil]
      rfl
    · rw [trimEnd, List.reverse_append]
      rfl
  rw [dropReturn]
  split
  · rename_i hLast
    obtain ⟨front, rfl⟩ := List.getLast?_eq_some_iff.mp hLast
    rw [List.dropLast_concat, trim, trim, hStart]
  · rfl

theorem trimEnd_eq_self {t : Text} (h : ∀ c ∈ t.getLast?, ¬ isWhite c) : trimEnd t = t := by
  obtain rfl | ⟨front, last, rfl⟩ := List.eq_nil_or_concat t
  · rfl
  · rw [List.concat_eq_append] at h ⊢
    exact trimEnd_concat (Bool.eq_false_iff.mpr (h last (by simp))) front

theorem not_isWhite_of_getLast?_trim {t : Text} {c : Char} (h : c ∈ (trim t).getLast?) : ¬ isWhite c := by
  rw [trim, trimEnd, List.getLast?_reverse] at h
  have hStop := List.head?_dropWhile_not isWhite (trimStart t).reverse
  rw [Option.mem_def.mp h] at hStop
  exact Bool.eq_false_iff.mp hStop

theorem trimStart_trim (t : Text) : trimStart (trim t) = trim t := by
  cases hTrim : trim t with
  | nil => rfl
  | cons c cs =>
    have hHead : (trimStart t).head? = some c := by
      have hPrefix : trim t <+: trimStart t := by
        rw [trim, trimEnd, ← List.reverse_suffix, List.reverse_reverse]
        exact List.dropWhile_suffix isWhite
      obtain ⟨behind, hBehind⟩ := hPrefix
      rw [← hBehind, hTrim]
      rfl
    have hStop := List.head?_dropWhile_not isWhite t
    rw [← trimStart, hHead] at hStop
    exact List.dropWhile_cons_of_neg (Bool.eq_false_iff.mp hStop)

theorem not_isWhite_of_head?_trim {t : Text} {c : Char} (h : c ∈ (trim t).head?) : ¬ isWhite c := by
  have hStop := List.head?_dropWhile_not isWhite (trim t)
  rw [← trimStart, trimStart_trim, Option.mem_def.mp h] at hStop
  exact Bool.eq_false_iff.mp hStop

theorem trim_trim (t : Text) : trim (trim t) = trim t := by
  rw [trim, trimStart_trim]
  exact trimEnd_eq_self fun c hc => not_isWhite_of_getLast?_trim hc

theorem trimStart_append_cons {c : Char} (h : isWhite c = false) (front back : Text) :
    trimStart (front ++ c :: back) = trimStart front ++ c :: back := by
  rw [trimStart, trimStart, List.dropWhile_append]
  split
  · rename_i hEmpty
    rw [List.isEmpty_iff.mp hEmpty, List.dropWhile_cons_of_neg (Bool.eq_false_iff.mp h), List.nil_append]
  · rfl

theorem trimEnd_append_cons {c : Char} (h : isWhite c = false) (front back : Text) :
    trimEnd (front ++ c :: back) = front ++ c :: trimEnd back := by
  have hReverse : (front ++ c :: back).reverse = back.reverse ++ c :: front.reverse := by simp
  rw [trimEnd, hReverse, ← trimStart, trimStart_append_cons h, trimEnd, trimStart]
  simp

/-- A visible character keeps the white space that stands at its sides. -/
theorem trim_append_cons {c : Char} (h : isWhite c = false) (front back : Text) :
    trim (front ++ c :: back) = trimStart front ++ c :: trimEnd back := by
  rw [trim, trimStart_append_cons h, trimEnd_append_cons h]

theorem trim_trimStart (t : Text) : trim (trimStart t) = trim t := by
  rw [trim, trim, trimStart, trimStart, List.dropWhile_idempotent]

theorem trim_append_white (t : Text) {blank : Text} (h : ∀ c ∈ blank, isWhite c) : trim (t ++ blank) = trim t := by
  rw [trim, trim, trimStart, trimStart, List.dropWhile_append]
  split
  · rename_i hEmpty
    rw [List.isEmpty_iff.mp hEmpty, List.dropWhile_eq_nil_iff.mpr h]
  · exact trimEnd_append_white _ h

theorem trim_trimEnd (t : Text) : trim (trimEnd t) = trim t := by
  have hWhite : ∀ c ∈ (t.reverse.takeWhile isWhite).reverse, isWhite c :=
    fun c hc => List.mem_takeWhile_imp (List.mem_reverse.mp hc)
  rw [← trim_append_white (trimEnd t) hWhite, trimEnd, ← List.reverse_append, List.takeWhile_append_dropWhile,
    List.reverse_reverse]

theorem mem_trim {c : Char} (h : isWhite c = false) {t : Text} : c ∈ trim t ↔ c ∈ t := by
  obtain ⟨before, behind, hText, hBefore, hBehind⟩ := exists_trim t
  have hVisible : ∀ {blank : Text}, (∀ d ∈ blank, isWhite d) → c ∉ blank := fun hBlank hc =>
    Bool.eq_false_iff.mp h (hBlank c hc)
  constructor
  · intro hc
    rw [hText]
    exact List.mem_append_left _ (List.mem_append_right _ hc)
  · intro hc
    rw [hText, List.mem_append, List.mem_append] at hc
    rcases hc with (hc | hc) | hc
    · exact absurd hc (hVisible hBefore)
    · exact hc
    · exact absurd hc (hVisible hBehind)

/-- White space at the ends stays at the ends of the parts. -/
theorem splitOnce?_trim {sep : Char} (h : isWhite sep = false) (t : Text) :
    splitOnce? sep (trim t) = (splitOnce? sep t).map (Prod.map trimStart trimEnd) := by
  cases hSplit : splitOnce? sep t with
  | none =>
    exact splitOnce?_eq_none_iff.mpr (mt (mem_trim h).mp (splitOnce?_eq_none_iff.mp hSplit))
  | some parts =>
    obtain ⟨rfl, hFront⟩ := splitOnce?_eq_some_iff.mp hSplit
    refine splitOnce?_eq_some_iff.mpr ⟨trim_append_cons h _ _, fun hMem => hFront ?_⟩
    exact (List.dropWhile_suffix isWhite).subset hMem

theorem after?_eq_some_iff {start t rest : Text} : after? start t = some rest ↔ t = start ++ rest := by
  induction start generalizing t with
  | nil => simp [after?]
  | cons c start ih =>
    cases t with
    | nil => simp [after?]
    | cons d t =>
      rw [after?]
      split
      · rename_i hEq
        rw [ih, beq_iff_eq.mp hEq, List.cons_append, List.cons.injEq, and_iff_right rfl]
      · rename_i hNe
        refine iff_of_false (by simp) fun h => hNe (beq_iff_eq.mpr (List.cons.inj h).1.symm)

theorem after?_append (start t u : Text) : after? (start ++ t) (start ++ u) = after? t u := by
  induction start with
  | nil => rfl
  | cons c start ih => simp [after?, ih]

/-- A start whose last character occurs only once in it is found before this character occurs again. -/
theorem startsWith_cut {sep : Char} {start : Text} (h : sep ∉ start) (t rest : Text) :
    startsWith (start ++ [sep]) (t ++ sep :: rest) = startsWith (start ++ [sep]) (t ++ [sep]) := by
  induction start generalizing t with
  | nil =>
    cases t with
    | nil => simp [startsWith, after?]
    | cons d t =>
      simp only [startsWith, List.nil_append, List.cons_append, after?]
      split <;> rfl
  | cons c start ih =>
    obtain ⟨hFirst, hRest⟩ := not_or.mp (mt List.mem_cons.mpr h)
    cases t with
    | nil => simp [startsWith, after?, Ne.symm hFirst]
    | cons d t =>
      simp only [startsWith, List.cons_append, after?]
      split
      · exact ih hRest t
      · rfl

theorem endsWith_append (tail t u : Text) : endsWith (tail ++ t) (u ++ t) = endsWith tail u := by
  rw [endsWith, endsWith, List.reverse_append, List.reverse_append, startsWith, startsWith, after?_append]

end GoCommands.Text
