import GoCommands.Text.Basic
import Mathlib.Data.Char
import Mathlib.Data.List.Lex

/-! # Sorting by a text -/

namespace GoCommands.Text

theorem le_iff (a b : Text) : Text.le a b ↔ a ≤ b := by simp [Text.le]

variable (key : α → Text)

theorem le_trans_key (a b c : α) (hab : Text.le (key a) (key b)) (hbc : Text.le (key b) (key c)) :
    Text.le (key a) (key c) := by
  rw [le_iff] at *
  exact hab.trans hbc

theorem le_total_key (a b : α) : Text.le (key a) (key b) || Text.le (key b) (key a) := by
  rw [Bool.or_eq_true, le_iff, le_iff]
  exact le_total _ _

variable (l : List α)

theorem pairwise_mergeSort :
    (l.mergeSort fun a b => Text.le (key a) (key b)).Pairwise fun a b => key a ≤ key b :=
  (List.pairwise_mergeSort (le_trans_key key) (le_total_key key) l).imp fun h => (le_iff _ _).mp h

theorem pairwise_lt_mergeSort (hKeys : (l.map key).Nodup) :
    (l.mergeSort fun a b => Text.le (key a) (key b)).Pairwise fun a b => key a < key b := by
  have hSorted : ((l.mergeSort fun a b => Text.le (key a) (key b)).map key).Nodup :=
    ((List.mergeSort_perm l _).map key).nodup_iff.mpr hKeys
  exact ((pairwise_mergeSort key l).and (List.pairwise_map.mp hSorted)).imp fun h => lt_of_le_of_ne h.1 h.2

/-- Where the texts are all different, the order in which the elements came is lost. -/
theorem mergeSort_eq_of_perm {l l' : List α} (h : l.Perm l') (hKeys : (l.map key).Nodup) :
    (l'.mergeSort fun a b => Text.le (key a) (key b)) = l.mergeSort fun a b => Text.le (key a) (key b) := by
  have hKeys' : (l'.map key).Nodup := (h.map key).nodup_iff.mp hKeys
  refine List.Perm.eq_of_pairwise (fun a b _ _ hab hba => absurd hab (lt_asymm hba))
    (pairwise_lt_mergeSort key l' hKeys') (pairwise_lt_mergeSort key l hKeys) ?_
  exact (List.mergeSort_perm l' _).trans (h.symm.trans (List.mergeSort_perm l _).symm)

/-- A further element stands behind those that are less and before all others. -/
theorem exists_mergeSort_cons (a : α) : ∃ before behind,
    ((a :: l).mergeSort fun a b => Text.le (key a) (key b)) = before ++ a :: behind ∧
    (l.mergeSort fun a b => Text.le (key a) (key b)) = before ++ behind ∧
    (before ++ behind).filter (fun b => !Text.le (key a) (key b)) = before := by
  obtain ⟨before, behind, hAll, hRest, hBefore⟩ :=
    List.mergeSort_cons (le_trans_key key) (le_total_key key) a l
  have hSorted := List.pairwise_mergeSort (le_trans_key key) (le_total_key key) (a :: l)
  rw [hAll] at hSorted
  have hBehind := (List.pairwise_append.mp hSorted).2.1
  refine ⟨before, behind, hAll, hRest, ?_⟩
  rw [List.filter_append, List.filter_eq_self.mpr hBefore, List.filter_eq_nil_iff.mpr, List.append_nil]
  intro b hb
  simpa using List.rel_of_pairwise_cons hBehind hb

/-- Elements of one text keep their order, so those that are left out do not matter for the others. -/
theorem filter_mergeSort (p : α → Bool) :
    (l.mergeSort fun a b => Text.le (key a) (key b)).filter p =
      (l.filter p).mergeSort fun a b => Text.le (key a) (key b) := by
  induction l with
  | nil => simp
  | cons a l ih =>
    obtain ⟨before, behind, hAll, hRest, hBefore⟩ := exists_mergeSort_cons key l a
    rw [hRest, List.filter_append] at ih
    rw [hAll, List.filter_append]
    cases hp : p a with
    | false => simp [hp, ih]
    | true =>
      obtain ⟨before', behind', hAll', hRest', hBefore'⟩ := exists_mergeSort_cons key (l.filter p) a
      rw [hRest'] at ih
      have hFront : before.filter p = before' := by
        rw [← hBefore', ← ih, ← List.filter_append, List.filter_comm, hBefore]
      have hBack : behind.filter p = behind' := by
        rw [hFront] at ih
        exact List.append_cancel_left ih
      rw [List.filter_cons_of_pos hp, List.filter_cons_of_pos hp, hAll', hFront, hBack]

/-- The first in order that satisfies a condition on its text is one with the least text of all that do. -/
theorem find?_mergeSort_iff (p : Text → Bool) (t : Text) :
    ((l.mergeSort fun a b => Text.le (key a) (key b)).find? fun a => p (key a)).map key = some t ↔
      t ∈ l.map key ∧ p t ∧ ∀ b ∈ l, p (key b) → t ≤ key b := by
  have hMem : ∀ b, b ∈ l ↔ b ∈ l.mergeSort fun a b => Text.le (key a) (key b) :=
    fun _ => List.mem_mergeSort.symm
  have hSorted := pairwise_mergeSort key l
  have hLeast : ∀ a, ((l.mergeSort fun a b => Text.le (key a) (key b)).find? fun a => p (key a)) = some a →
      a ∈ l ∧ p (key a) ∧ ∀ b ∈ l, p (key b) → key a ≤ key b := by
    intro a hFound
    obtain ⟨hHolds, before, behind, hSplit, hBefore⟩ := List.find?_eq_some_iff_append.mp hFound
    rw [hSplit] at hSorted
    refine ⟨(hMem a).mpr (List.mem_of_find?_eq_some hFound), hHolds, fun b hb hp => ?_⟩
    rw [hMem, hSplit] at hb
    rcases List.mem_append.mp hb with hb | hb
    · exact absurd hp (by simpa using hBefore b hb)
    · rcases List.mem_cons.mp hb with rfl | hb
      · exact le_rfl
      · exact List.rel_of_pairwise_cons (List.pairwise_append.mp hSorted).2.1 hb
  constructor
  · intro h
    obtain ⟨a, hFound, rfl⟩ := Option.map_eq_some_iff.mp h
    obtain ⟨ha, hHolds, hFirst⟩ := hLeast a hFound
    exact ⟨List.mem_map_of_mem ha, hHolds, hFirst⟩
  · rintro ⟨hText, hHolds, hFirst⟩
    obtain ⟨a, ha, rfl⟩ := List.mem_map.mp hText
    have hSome : ((l.mergeSort fun a b => Text.le (key a) (key b)).find? fun a => p (key a)).isSome :=
      List.find?_isSome.mpr ⟨a, (hMem a).mp ha, hHolds⟩
    obtain ⟨b, hFound⟩ := Option.isSome_iff_exists.mp hSome
    obtain ⟨hb, hHolds', hFirst'⟩ := hLeast b hFound
    rw [hFound, Option.map_some, le_antisymm (hFirst' a ha hHolds) (hFirst b hb hHolds')]

end GoCommands.Text
