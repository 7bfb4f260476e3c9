import GoCommands.Proofs.Wrapper.Canonical

/-! # The layout by runs of white space

Between two visible characters the layout only sees the white space: without a line break it stays, and otherwise
what stands behind the last line break stays, behind one line break or two. This form of the layout does not ask where
the lines of the text begin, so a part of the text is laid out by itself.
-/

namespace GoCommands.Layout

/-- What stands behind the last line break. -/
def lastLine (w : Text) : Text := (w.reverse.takeWhile (· != '\n')).reverse

/-- What is left of the white space between two visible characters. -/
def press (w : Text) : Text :=
  if '\n' ∈ w then (if 1 < w.count '\n' then ['\n'] else []) ++ '\n' :: lastLine w else w

/-- The text behind some white space `held` that is not yet written; `ending` tells what becomes of the white space
at the end. -/
def pressTo (ending : Text → Text) : (held : Text) → Text → Text
  | held, [] => ending held
  | held, c :: cs =>
    if Text.isWhite c then pressTo ending (held ++ [c]) cs else press held ++ c :: pressTo ending [] cs

/-- A part of a text between visible characters. -/
def pressed : (held : Text) → Text → Text := pressTo id

/-- What stands between two visible characters. -/
def between : (held : Text) → Text → Text := pressTo press

/-- The last part of a text. -/
def finished : (held : Text) → Text → Text := pressTo fun _ => ['\n']

theorem exists_lastBreak {w : Text} (h : '\n' ∈ w) : ∃ front back, w = front ++ '\n' :: back ∧ '\n' ∉ back := by
  obtain ⟨back, front, hReverse, hClean⟩ := List.eq_append_cons_of_mem (List.mem_reverse.mpr h)
  refine ⟨front.reverse, back.reverse, ?_, by rwa [List.mem_reverse]⟩
  rw [← List.reverse_inj, hReverse]
  simp

theorem lastLine_append {back : Text} (h : '\n' ∉ back) (front : Text) : lastLine (front ++ '\n' :: back) = back := by
  have hClean : '\n' ∉ back.reverse := mt List.mem_reverse.mp h
  rw [lastLine, List.reverse_append, List.reverse_cons, List.append_assoc, List.singleton_append,
    (Text.cut_append_cons hClean front.reverse).1, List.reverse_reverse]

theorem lastLine_of_not_mem {w : Text} (h : '\n' ∉ w) : lastLine w = w := by
  have hAll : w.reverse.takeWhile (· != '\n') = w.reverse := by
    refine List.takeWhile_eq_self_iff.mpr fun c hc => ?_
    rw [bne_iff_ne]
    exact ne_of_mem_of_not_mem (List.mem_reverse.mp hc) h
  rw [lastLine, hAll, List.reverse_reverse]

theorem mem_of_mem_lastLine {w : Text} {c : Char} (h : c ∈ lastLine w) : c ∈ w :=
  List.mem_reverse.mp ((List.takeWhile_subset _) (List.mem_reverse.mp h))

theorem press_of_not_mem {w : Text} (h : '\n' ∉ w) : press w = w := if_neg h

theorem press_append {back : Text} (h : '\n' ∉ back) (front : Text) :
    press (front ++ '\n' :: back) = (if '\n' ∈ front then ['\n'] else []) ++ '\n' :: back := by
  have hMem : '\n' ∈ front ++ '\n' :: back := List.mem_append_right front List.mem_cons_self
  have hCount : 1 < (front ++ '\n' :: back).count '\n' ↔ '\n' ∈ front := by
    rw [List.count_append, List.count_cons_self, List.count_eq_zero_of_not_mem h, ← List.count_pos_iff]
    omega
  rw [press, if_pos hMem, lastLine_append h]
  simp only [hCount]

@[simp] theorem press_nil : press [] = [] := rfl

/-- White space before the first line break does not matter if there is one. -/
theorem press_append_of_not_mem {front : Text} (h : '\n' ∉ front) (back : Text) :
    press (front ++ '\n' :: back) = press ('\n' :: back) := by
  by_cases hMore : '\n' ∈ back
  · obtain ⟨inner, last, rfl, hLast⟩ := exists_lastBreak hMore
    rw [← List.cons_append, ← List.append_assoc, press_append hLast, press_append hLast]
    simp
  · rw [press_append hMore, if_neg h]
    exact (press_append hMore []).symm

theorem press_sublist (w : Text) : (press w).Sublist w := by
  by_cases hBreak : '\n' ∈ w
  · obtain ⟨front, back, rfl, hBack⟩ := exists_lastBreak hBreak
    rw [press_append hBack]
    refine List.Sublist.append ?_ (List.Sublist.refl _)
    split
    · rename_i hMem
      exact List.singleton_sublist.mpr hMem
    · exact List.nil_sublist front
  · rw [press_of_not_mem hBreak]

theorem press_eq_nil_iff {w : Text} : press w = [] ↔ w = [] := by
  by_cases hBreak : '\n' ∈ w
  · obtain ⟨front, back, rfl, hBack⟩ := exists_lastBreak hBreak
    rw [press_append hBack]
    simp
  · rw [press_of_not_mem hBreak]

theorem isWhite_press {w : Text} (h : ∀ c ∈ w, Text.isWhite c) : ∀ c ∈ press w, Text.isWhite c :=
  fun c hc => h c ((press_sublist w).subset hc)

/-! ## Parts of a text -/

section

variable (ending : Text → Text)

theorem pressTo_cons {c : Char} (h : Text.isWhite c = false) (held t : Text) :
    pressTo ending held (c :: t) = press held ++ c :: pressTo ending [] t := by
  rw [pressTo, if_neg (Bool.eq_false_iff.mp h)]

theorem pressTo_visible {v : Text} (h : ∀ c ∈ v, Text.isWhite c = false) (t : Text) :
    pressTo ending [] (v ++ t) = v ++ pressTo ending [] t := by
  induction v with
  | nil => rfl
  | cons c cs ih =>
    obtain ⟨hFirst, hRest⟩ := List.forall_mem_cons.mp h
    rw [List.cons_append, pressTo_cons ending hFirst, ih hRest]
    rfl

theorem pressTo_between {c : Char} (h : Text.isWhite c = false) (held t u : Text) :
    pressTo ending held (t ++ c :: u) = between held t ++ c :: pressTo ending [] u := by
  induction t generalizing held with
  | nil => exact pressTo_cons ending h held u
  | cons d ds ih =>
    rw [List.cons_append, between, pressTo, pressTo]
    split
    · exact ih (held ++ [d])
    · rw [ih, List.append_assoc, List.cons_append]
      rfl

theorem pressed_between {c : Char} (h : Text.isWhite c = false) (held t : Text) :
    pressed held (t ++ [c]) = between held t ++ [c] := pressTo_between id h held t []

theorem pressTo_append {t : Text} (h : EndsVisible t) (held u : Text) :
    pressTo ending held (t ++ u) = pressed held t ++ pressTo ending [] u := by
  obtain ⟨front, last, rfl, hLast⟩ := h
  rw [List.append_assoc, List.singleton_append, pressTo_between ending hLast, pressed_between hLast, List.append_assoc]
  rfl

theorem pressTo_sublist (hEnding : ∀ w, (ending w).Sublist w) (held t : Text) :
    (pressTo ending held t).Sublist (held ++ t) := by
  induction t generalizing held with
  | nil =>
    rw [pressTo, List.append_nil]
    exact hEnding held
  | cons c cs ih =>
    rw [pressTo]
    split
    · have hLater := ih (held ++ [c])
      rw [List.append_assoc] at hLater
      exact hLater
    · exact (press_sublist held).append ((ih []).cons_cons c)

end

/-- What is held without a line break is not seen behind the next line break, and at the end of the text. -/
theorem finished_held {held : Text} (hClean : '\n' ∉ held) {t : Text}
    (h : ∀ c ∈ t.head?, c = '\n') : finished held t = finished [] t := by
  have hBehind : ∀ back u, finished (held ++ '\n' :: back) u = finished ('\n' :: back) u := by
    intro back u
    induction u generalizing back with
    | nil => rfl
    | cons c cs ih =>
      rw [finished, pressTo, pressTo]
      split
      · rw [List.append_assoc, List.cons_append]
        exact ih (back ++ [c])
      · rw [press_append_of_not_mem hClean]
  cases t with
  | nil => rfl
  | cons c cs =>
    cases h c rfl
    exact hBehind [] cs

/-! ## The layout of the whole text -/

theorem arrange_blanks {w : Text} (h : ∀ c ∈ w, Text.isWhite c) (started gap : Bool) (rest : Text) :
    arrange started gap (Text.lines (w ++ '\n' :: rest)) = arrange started started (Text.lines rest) := by
  have hLine : ∀ {l : Text}, (∀ c ∈ l, Text.isWhite c) → '\n' ∉ l → ∀ gap rest,
      arrange started gap (Text.lines (l ++ '\n' :: rest)) = arrange started started (Text.lines rest) := by
    intro l hWhite hClean gap rest
    have hNil : Text.trimEnd l = [] := (trimEnd_eq_nil_iff l).mpr (List.all_eq_true.mpr hWhite)
    rw [Text.lines_append hClean, arrange, Text.trimEnd_dropReturn, hNil]
    rfl
  induction w using Text.lines_induction generalizing gap with
  | last l hClean => exact hLine h hClean gap rest
  | line l w hClean ih =>
    obtain ⟨hFirst, hRest⟩ := List.forall_mem_append.mp h
    rw [List.append_assoc, List.cons_append, hLine hFirst hClean]
    exact ih (List.forall_mem_cons.mp hRest).2 started

theorem arrange_white {w : Text} (h : ∀ c ∈ w, Text.isWhite c) (started gap : Bool) :
    arrange started gap (Text.lines w) = [] := by
  have hLast : ∀ {l : Text}, (∀ c ∈ l, Text.isWhite c) → '\n' ∉ l → ∀ gap, arrange started gap (Text.lines l) = [] := by
    intro l hWhite hClean gap
    have hNil : Text.trimEnd l = [] := (trimEnd_eq_nil_iff l).mpr (List.all_eq_true.mpr hWhite)
    rw [Text.lines_of_not_mem hClean]
    split
    · rfl
    · rw [arrange, hNil]
      rfl
  by_cases hBreak : '\n' ∈ w
  · obtain ⟨front, back, rfl, hBack⟩ := exists_lastBreak hBreak
    obtain ⟨hFront, hRest⟩ := List.forall_mem_append.mp h
    rw [arrange_blanks hFront]
    exact hLast (List.forall_mem_cons.mp hRest).2 hBack started
  · exact hLast h hBreak gap

section

variable {line : Text} (hVisible : EndsVisible line) (hClean : '\n' ∉ line)
include hVisible hClean

/-- The end of a line that has something visible, and what follows its line break. -/
theorem arrange_visible_line {w : Text} (hWhite : ∀ c ∈ w, Text.isWhite c) (hw : '\n' ∉ w) (started gap : Bool)
    (rest : Text) : arrange started gap (Text.lines (line ++ w ++ '\n' :: rest)) =
      (if gap then ['\n'] else []) ++ line ++ '\n' :: arrange true false (Text.lines rest) := by
  have hLine : '\n' ∉ line ++ w := by
    rw [List.mem_append]
    exact not_or.mpr ⟨hClean, hw⟩
  have hTrim : Text.trimEnd (line ++ w) = line := by rw [Text.trimEnd_append_white line hWhite, hVisible.trimEnd_eq]
  rw [arrange_line started gap hLine (by rw [hTrim]; exact hVisible.ne_nil), hTrim]

theorem arrange_last_line {w : Text} (hWhite : ∀ c ∈ w, Text.isWhite c) (started gap : Bool) :
    arrange started gap (Text.lines (line ++ w)) = (if gap then ['\n'] else []) ++ line ++ ['\n'] := by
  by_cases hBreak : '\n' ∈ w
  · obtain ⟨front, back, rfl, hFront⟩ := List.eq_append_cons_of_mem hBreak
    obtain ⟨hFirst, hRest⟩ := List.forall_mem_append.mp hWhite
    rw [← List.append_assoc, arrange_visible_line hVisible hClean hFirst hFront,
      arrange_white (List.forall_mem_cons.mp hRest).2]
  · have hLine : '\n' ∉ line ++ w := by
      rw [List.mem_append]
      exact not_or.mpr ⟨hClean, hBreak⟩
    have hTrim : Text.trimEnd (line ++ w) = line := by rw [Text.trimEnd_append_white line hWhite, hVisible.trimEnd_eq]
    have hEmpty : (line ++ w).isEmpty = false ∧ line.isEmpty = false := by simp [hVisible.ne_nil]
    rw [Text.lines_of_not_mem hLine, hEmpty.1, if_neg Bool.false_ne_true, arrange, hTrim, hEmpty.2]
    rfl

/-- White space up to a visible character `c`, if it is known what is written from the line of this character on. -/
theorem arrange_next_line {w : Text} (hWhite : ∀ c ∈ w, Text.isWhite c) {t u : Text} {c : Char}
    (hNext : ∀ {w : Text}, '\n' ∉ w → ∀ started gap, arrange started gap (Text.lines (w ++ c :: t)) =
      (if gap then ['\n'] else []) ++ w ++ c :: u) (started gap : Bool) :
    arrange started gap (Text.lines (line ++ (w ++ c :: t))) =
      (if gap then ['\n'] else []) ++ line ++ (press w ++ c :: u) := by
  by_cases hBreak : '\n' ∈ w
  · obtain ⟨front, back, rfl, hFront⟩ := List.eq_append_cons_of_mem hBreak
    obtain ⟨hFirst, hRest⟩ := List.forall_mem_append.mp hWhite
    have hText : line ++ (front ++ '\n' :: back ++ c :: t) = line ++ front ++ '\n' :: (back ++ c :: t) := by
      simp only [List.append_assoc, List.cons_append]
    rw [hText, arrange_visible_line hVisible hClean hFirst hFront, press_append_of_not_mem hFront]
    by_cases hMore : '\n' ∈ back
    · obtain ⟨inner, last, rfl, hLast⟩ := exists_lastBreak hMore
      have hBlank := (List.forall_mem_append.mp (List.forall_mem_cons.mp hRest).2).1
      have hPress : press ('\n' :: (inner ++ '\n' :: last)) = ['\n'] ++ '\n' :: last :=
        (press_append hLast ('\n' :: inner)).trans (by rw [if_pos List.mem_cons_self])
      rw [List.append_assoc inner, List.cons_append, arrange_blanks hBlank, hNext hLast, hPress]
      simp
    · have hPress : press ('\n' :: back) = '\n' :: back := press_append hMore []
      rw [hNext hMore, hPress]
      simp
  · have hLine : '\n' ∉ line ++ w := by
      rw [List.mem_append]
      exact not_or.mpr ⟨hClean, hBreak⟩
    rw [← List.append_assoc, hNext hLine, press_of_not_mem hBreak]
    simp only [List.append_assoc]

end

/-- From the middle of a line on: `line` was read of it, and behind that the white space `held`. -/
theorem arrange_line_append {line held : Text} (hVisible : EndsVisible line) (hClean : '\n' ∉ line)
    (hHeld : ∀ c ∈ held, Text.isWhite c) (started gap : Bool) (t : Text) :
    arrange started gap (Text.lines (line ++ (held ++ t))) =
      (if gap then ['\n'] else []) ++ line ++ finished held t := by
  induction t generalizing line held started gap with
  | nil =>
    rw [List.append_nil]
    exact arrange_last_line hVisible hClean hHeld started gap
  | cons c cs ih =>
    cases hWhite : Text.isWhite c with
    | true =>
      have hMore : ∀ d ∈ held ++ [c], Text.isWhite d :=
        List.forall_mem_append.mpr ⟨hHeld, List.forall_mem_singleton.mpr hWhite⟩
      have hLater := ih hVisible hClean hMore started gap
      rw [List.append_assoc, List.singleton_append] at hLater
      rw [hLater, finished, pressTo, if_pos hWhite]
    | false =>
      have hNext : ∀ {w : Text}, '\n' ∉ w → ∀ started gap, arrange started gap (Text.lines (w ++ c :: cs)) =
          (if gap then ['\n'] else []) ++ w ++ c :: finished [] cs := by
        intro w hw started gap
        have hLine : '\n' ∉ w ++ [c] := by
          rw [List.mem_append, List.mem_singleton]
          refine not_or.mpr ⟨hw, ?_⟩
          rintro rfl
          exact absurd hWhite (by decide)
        have hLater : arrange started gap (Text.lines ((w ++ [c]) ++ ([] ++ cs))) =
            (if gap then ['\n'] else []) ++ (w ++ [c]) ++ finished [] cs :=
          ih ⟨w, c, rfl, hWhite⟩ hLine (List.forall_mem_nil _) started gap
        simp only [List.nil_append, List.append_assoc, List.singleton_append] at hLater
        rw [hLater, List.append_assoc]
      rw [arrange_next_line hVisible hClean hHeld hNext, finished, pressTo_cons _ hWhite]

/-- White space at the start of a text goes, but for the indentation of its first line. -/
theorem normalize_white_append {w : Text} (h : ∀ c ∈ w, Text.isWhite c) {c : Char} (hVisible : Text.isWhite c = false)
    (t : Text) : normalize (w ++ c :: t) = lastLine w ++ c :: finished [] t := by
  have hNoBreak : '\n' ≠ c := by
    rintro rfl
    exact absurd hVisible (by decide)
  have hBegin : ∀ {w : Text}, '\n' ∉ w → arrange false false (Text.lines (w ++ c :: t)) = w ++ c :: finished [] t := by
    intro w hw
    have hLine : '\n' ∉ w ++ [c] := by
      rw [List.mem_append, List.mem_singleton]
      exact not_or.mpr ⟨hw, hNoBreak⟩
    have hLater := arrange_line_append ⟨w, c, rfl, hVisible⟩ hLine (List.forall_mem_nil _) false false t
    simp only [List.nil_append, List.append_assoc, List.singleton_append] at hLater
    exact hLater
  by_cases hBreak : '\n' ∈ w
  · obtain ⟨front, back, rfl, hBack⟩ := exists_lastBreak hBreak
    rw [normalize, List.append_assoc, List.cons_append, arrange_blanks (List.forall_mem_append.mp h).1, hBegin hBack,
      lastLine_append hBack]
  · rw [normalize, hBegin hBreak, lastLine_of_not_mem hBreak]

theorem normalize_white {w : Text} (h : ∀ c ∈ w, Text.isWhite c) : normalize w = [] := arrange_white h false false

end GoCommands.Layout
