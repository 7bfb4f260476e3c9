import GoCommands.CommandName
import GoCommands.Proofs.Text.Classes
import Mathlib.Data.List.Chain

/-! # Words of identifiers

The command name of an identifier that is put together from words has one hyphen between any two neighbours and no
others. A word behind a small letter is found by looking back, and an ordinary word behind an acronym by looking ahead.
Only two acronyms in a row cannot be told apart.
-/

namespace GoCommands.CommandName

/-- A capital with one or more small letters behind it. -/
def IsOrdinary (w : Text) : Prop := ∃ c cs, w = c :: cs ∧ c.isUpper ∧ cs ≠ [] ∧ ∀ d ∈ cs, d.isLower

/-- One or more capitals. -/
def IsAcronym (w : Text) : Prop := w ≠ [] ∧ ∀ c ∈ w, c.isUpper

instance : DecidablePred IsAcronym := fun w =>
  decidable_of_iff (w ≠ [] ∧ w.all Char.isUpper) (and_congr_right' List.all_eq_true)

def smallForm (w : Text) : Text := w.map Char.toLower

section

variable {p c : Char}

theorem lt_of_isUpper (h : c.isUpper) : c.toNat < 128 := by
  have hBounds : c.val ≥ 'A'.val ∧ c.val ≤ 'Z'.val := of_decide_eq_true h
  exact Nat.lt_of_le_of_lt (UInt32.le_iff_toNat_le.mp hBounds.2) (by decide)

theorem lt_of_isLower (h : c.isLower) : c.toNat < 128 := by
  have hBounds : (decide (c.val ≥ 'a'.val) && decide (c.val ≤ 'z'.val)) = true := h
  have hBelow : c.val ≤ 'z'.val := of_decide_eq_true (Bool.and_eq_true_iff.mp hBounds).2
  exact Nat.lt_of_le_of_lt (UInt32.le_iff_toNat_le.mp hBelow) (by decide)

theorem classes_of_isUpper (h : c.isUpper) :
    Text.isCapital c = true ∧ Text.isSmall c = false ∧ Text.toSmall c = [c.toLower] :=
  Text.ascii_induction (p := fun c => c.isUpper →
    Text.isCapital c = true ∧ Text.isSmall c = false ∧ Text.toSmall c = [c.toLower])
    (by decide +kernel) c (lt_of_isUpper h) h

theorem classes_of_isLower (h : c.isLower) :
    Text.isCapital c = false ∧ Text.isSmall c = true ∧ Text.toSmall c = [c.toLower] :=
  Text.ascii_induction (p := fun c => c.isLower →
    Text.isCapital c = false ∧ Text.isSmall c = true ∧ Text.toSmall c = [c.toLower])
    (by decide +kernel) c (lt_of_isLower h) h

theorem kebabFrom_small (h : c.isLower) (prev : Option Char) (t : Text) :
    kebabFrom prev (c :: t) = c.toLower :: kebabFrom (some c) t := by
  obtain ⟨hCapital, -, hForm⟩ := classes_of_isLower h
  rw [kebabFrom, startsWord.eq_def, hCapital, hForm]
  rfl

theorem kebabFrom_first (h : c.isUpper) (t : Text) :
    kebabFrom none (c :: t) = c.toLower :: kebabFrom (some c) t := by
  rw [kebabFrom, startsWord, Bool.and_false, (classes_of_isUpper h).2.2]
  rfl

theorem kebabFrom_start (h : c.isUpper) {t : Text} (hStart : p.isLower ∨ ∃ d ∈ t.head?, d.isLower) :
    kebabFrom (some p) (c :: t) = '-' :: c.toLower :: kebabFrom (some c) t := by
  obtain ⟨hCapital, -, hForm⟩ := classes_of_isUpper h
  have hNear : (Text.isSmall p || t.head?.any Text.isSmall) = true := by
    rw [Bool.or_eq_true, Option.any_eq_true]
    refine hStart.imp (fun hp => (classes_of_isLower hp).2.1) ?_
    rintro ⟨d, hd, hLower⟩
    exact ⟨d, hd, (classes_of_isLower hLower).2.1⟩
  rw [kebabFrom, startsWord, hCapital, hForm]
  simp only [hNear, Bool.and_self, if_true]
  rfl

theorem kebabFrom_inside (hp : p.isUpper) (h : c.isUpper) {t : Text} (ht : ∀ d ∈ t.head?, d.isUpper) :
    kebabFrom (some p) (c :: t) = c.toLower :: kebabFrom (some c) t := by
  obtain ⟨-, -, hForm⟩ := classes_of_isUpper h
  have hNear : (Text.isSmall p || t.head?.any Text.isSmall) = false := by
    rw [Bool.or_eq_false_iff, Option.any_eq_false]
    exact ⟨(classes_of_isUpper hp).2.1, fun d hd => (classes_of_isUpper (ht d hd)).2.1⟩
  rw [kebabFrom, startsWord, hForm]
  simp only [hNear, Bool.and_false, Bool.false_eq_true, if_false]
  rfl

theorem kebabFrom_smalls (p : Char) {cs : Text} (h : ∀ d ∈ cs, d.isLower) (rest : Text) :
    kebabFrom (some p) (cs ++ rest) = smallForm cs ++ kebabFrom (p :: cs).getLast? rest := by
  induction cs generalizing p with
  | nil => rfl
  | cons c cs ih =>
    obtain ⟨hc, hcs⟩ := List.forall_mem_cons.mp h
    rw [List.cons_append, kebabFrom_small hc, ih c hcs, List.getLast?_cons_cons]
    rfl

theorem kebabFrom_capitals (hp : p.isUpper) {cs : Text} (h : ∀ d ∈ cs, d.isUpper) {rest : Text}
    (hRest : ∀ d ∈ rest.head?, d.isUpper) :
    kebabFrom (some p) (cs ++ rest) = smallForm cs ++ kebabFrom (p :: cs).getLast? rest := by
  induction cs generalizing p with
  | nil => rfl
  | cons c cs ih =>
    obtain ⟨hc, hcs⟩ := List.forall_mem_cons.mp h
    have hNext : ∀ d ∈ (cs ++ rest).head?, d.isUpper := by
      cases cs with
      | nil => exact hRest
      | cons d ds => exact fun e he => hcs e (List.mem_of_mem_head? he)
    rw [List.cons_append, kebabFrom_inside hp hc hNext, ih hc hcs, List.getLast?_cons_cons]
    rfl

end

theorem not_isAcronym_of_isOrdinary {w : Text} (h : IsOrdinary w) : ¬ IsAcronym w := by
  rintro ⟨-, hCapitals⟩
  obtain ⟨c, cs, rfl, -, hNonempty, hcs⟩ := h
  obtain ⟨d, ds, rfl⟩ := List.exists_cons_of_ne_nil hNonempty
  have hSmall := (classes_of_isLower (hcs d (.head _))).2.1
  rw [(classes_of_isUpper (hCapitals d (.tail _ (.head _)))).2.1] at hSmall
  cases hSmall

/-- A word with nothing before it, or with a small letter before it if it is an acronym. -/
theorem kebabFrom_word {w rest : Text} (hw : IsOrdinary w ∨ IsAcronym w) (hRest : ∀ d ∈ rest.head?, d.isUpper)
    {prev : Option Char} (hPrev : ∀ p ∈ prev, p.isLower ∨ IsOrdinary w) :
    kebabFrom prev (w ++ rest) =
      (if prev.isSome then ['-'] else []) ++ (smallForm w ++ kebabFrom w.getLast? rest) := by
  -- The first letter has a hyphen before it if anything stands there, and the other letters have none.
  have hStart : ∀ {c t}, c.isUpper → (∀ p ∈ prev, p.isLower ∨ ∃ d ∈ t.head?, d.isLower) →
      kebabFrom prev (c :: t) = (if prev.isSome then ['-'] else []) ++ c.toLower :: kebabFrom (some c) t := by
    intro c t hc hNear
    cases prev with
    | none => exact kebabFrom_first hc t
    | some p => exact kebabFrom_start hc (hNear p rfl)
  rcases hw with hOrdinary | hAcronym
  · obtain ⟨c, cs, rfl, hc, hNonempty, hcs⟩ := hOrdinary
    obtain ⟨d, ds, rfl⟩ := List.exists_cons_of_ne_nil hNonempty
    rw [List.cons_append, hStart hc fun _ _ => .inr ⟨d, rfl, hcs d (.head _)⟩, kebabFrom_smalls c hcs]
    rfl
  · have hBehind : ∀ p ∈ prev, p.isLower := fun p hp =>
      (hPrev p hp).resolve_right fun hOrdinary => not_isAcronym_of_isOrdinary hOrdinary hAcronym
    obtain ⟨hNonempty, hCapitals⟩ := hAcronym
    obtain ⟨c, cs, rfl⟩ := List.exists_cons_of_ne_nil hNonempty
    obtain ⟨hc, hcs⟩ := List.forall_mem_cons.mp hCapitals
    rw [List.cons_append, hStart hc fun p hp => .inl (hBehind p hp), kebabFrom_capitals hc hcs hRest]
    rfl

theorem exists_head {w : Text} (hw : IsOrdinary w ∨ IsAcronym w) : ∃ c cs, w = c :: cs ∧ c.isUpper := by
  rcases hw with ⟨c, cs, rfl, hc, -⟩ | ⟨hNonempty, hCapitals⟩
  · exact ⟨c, cs, rfl, hc⟩
  · obtain ⟨c, cs, rfl⟩ := List.exists_cons_of_ne_nil hNonempty
    exact ⟨c, cs, rfl, hCapitals c (.head _)⟩

theorem exists_last {w : Text} (hw : IsOrdinary w ∨ IsAcronym w) :
    ∃ p, w.getLast? = some p ∧ (p.isLower ∨ IsAcronym w) := by
  rcases hw with ⟨c, cs, rfl, -, hNonempty, hcs⟩ | hAcronym
  · refine ⟨cs.getLast hNonempty, ?_, .inl (hcs _ (List.getLast_mem hNonempty))⟩
    rw [List.getLast?_cons_of_ne_nil hNonempty, List.getLast?_eq_some_getLast hNonempty]
  · exact ⟨_, List.getLast?_eq_some_getLast hAcronym.1, .inr hAcronym⟩

theorem kebabFrom_words {w : Text} {ws : List Text} (hWords : ∀ v ∈ w :: ws, IsOrdinary v ∨ IsAcronym v)
    (hApart : (w :: ws).IsChain fun a b => ¬ (IsAcronym a ∧ IsAcronym b)) {prev : Option Char}
    (hPrev : ∀ p ∈ prev, p.isLower ∨ IsOrdinary w) :
    kebabFrom prev (w :: ws).flatten =
      (if prev.isSome then ['-'] else []) ++ (smallForm w ++ ws.flatMap fun v => '-' :: smallForm v) := by
  induction ws generalizing w prev with
  | nil =>
    obtain ⟨hw, -⟩ := List.forall_mem_cons.mp hWords
    rw [List.flatten_cons, kebabFrom_word hw (by simp) hPrev]
    rfl
  | cons v vs ih =>
    obtain ⟨hw, hRest⟩ := List.forall_mem_cons.mp hWords
    obtain ⟨hNext, hTail⟩ := List.isChain_cons_cons.mp hApart
    obtain ⟨p, hLast, hp⟩ := exists_last hw
    have hHead : ∀ d ∈ (v :: vs).flatten.head?, d.isUpper := by
      obtain ⟨c, cs, rfl, hc⟩ := exists_head (hRest v (.head _))
      rintro d ⟨⟩
      exact hc
    -- Behind an acronym stands an ordinary word.
    have hBehind : ∀ q ∈ w.getLast?, q.isLower ∨ IsOrdinary v := by
      rw [hLast]
      rintro q ⟨⟩
      exact hp.imp id fun hAcronym => (hRest v (.head _)).resolve_right fun hv => hNext ⟨hAcronym, hv⟩
    rw [List.flatten_cons, kebabFrom_word hw hHead hPrev, ih hRest hTail hBehind, hLast]
    rfl

theorem joinWith_cons (sep t : Text) (ts : List Text) : Text.joinWith sep (t :: ts) = t ++ ts.flatMap (sep ++ ·) := by
  induction ts generalizing t with
  | nil => exact (List.append_nil t).symm
  | cons u us ih =>
    have hStep : Text.joinWith sep (t :: u :: us) = t ++ sep ++ Text.joinWith sep (u :: us) := rfl
    rw [hStep, ih, List.flatMap_cons, List.append_assoc, List.append_assoc]

/-- Where no two acronyms are neighbours, the words of an identifier are those of its command name. -/
theorem ofIdentifier_flatten {words : List Text} (hWords : ∀ w ∈ words, IsOrdinary w ∨ IsAcronym w)
    (hApart : words.IsChain fun a b => ¬ (IsAcronym a ∧ IsAcronym b)) :
    ofIdentifier words.flatten = Text.joinWith ['-'] (words.map smallForm) := by
  cases words with
  | nil => rfl
  | cons w ws =>
    have hPrev : ∀ p ∈ (none : Option Char), p.isLower ∨ IsOrdinary w := fun _ hp => nomatch hp
    rw [ofIdentifier, kebabFrom_words hWords hApart hPrev, List.map_cons, joinWith_cons, List.flatMap_map]
    rfl

/-- Acronyms at the end, before a word, and of one letter between two words. -/
def mixedWords : List Text :=
  ["Get".toList, "API".toList, "Server".toList, "X".toList, "Build".toList, "URL".toList]

theorem ofIdentifier_flatten_mixedWords : (∀ w ∈ mixedWords, IsOrdinary w ∨ IsAcronym w) ∧
    (mixedWords.IsChain fun a b => ¬ (IsAcronym a ∧ IsAcronym b)) ∧
    ofIdentifier "GetAPIServerXBuildURL".toList = "get-api-server-x-build-url".toList := by
  have hWords : ∀ w ∈ mixedWords, IsOrdinary w ∨ IsAcronym w := by
    have hAcronyms : IsAcronym "API".toList ∧ IsAcronym "X".toList ∧ IsAcronym "URL".toList := by decide
    simp only [mixedWords, List.forall_mem_cons]
    refine ⟨.inl ?_, .inr hAcronyms.1, .inl ?_, .inr hAcronyms.2.1, .inl ?_, .inr hAcronyms.2.2,
      List.forall_mem_nil _⟩
    all_goals exact ⟨_, _, rfl, by decide, by decide, List.all_eq_true.mp (by decide)⟩
  have hApart : mixedWords.IsChain fun a b => ¬ (IsAcronym a ∧ IsAcronym b) := by decide
  exact ⟨hWords, hApart, ofIdentifier_flatten hWords hApart⟩

end GoCommands.CommandName
