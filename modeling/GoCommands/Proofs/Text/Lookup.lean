import GoCommands.Text.Basic
import Mathlib.Data.List.Nodup

/-! # Entries that are looked up by a text -/

namespace GoCommands

variable {α β : Type}

theorem eq_of_countP_le_one {p : α → Bool} {l : List α} (h : l.countP p ≤ 1) {a b : α} (ha : a ∈ l)
    (hb : b ∈ l) (hpa : p a) (hpb : p b) : a = b := by
  rw [List.countP_eq_length_filter] at h
  have ha := List.mem_filter.mpr ⟨ha, hpa⟩
  have hb := List.mem_filter.mpr ⟨hb, hpb⟩
  match hFilter : l.filter p with
  | [] =>
    rw [hFilter] at ha
    cases ha
  | [c] =>
    rw [hFilter, List.mem_singleton] at ha hb
    rw [ha, hb]
  | _ :: _ :: _ =>
    rw [hFilter, List.length_cons, List.length_cons] at h
    omega

theorem lookup_eq_some_iff_mem {l : List (Text × β)} {key : Text}
    (hOnce : l.countP (fun entry => entry.1 == key) ≤ 1) {value : β} :
    l.lookup key = some value ↔ (key, value) ∈ l := by
  have hMem : ∀ {v}, l.lookup key = some v → (key, v) ∈ l := by
    intro v h
    obtain ⟨before, behind, rfl, -⟩ := List.lookup_eq_some_iff.mp h
    simp
  refine ⟨hMem, fun h => ?_⟩
  have hFound : (l.lookup key).isSome := List.lookup_isSome_iff.mpr ⟨_, h, beq_self_eq_true key⟩
  obtain ⟨v, hv⟩ := Option.isSome_iff_exists.mp hFound
  have hEq := eq_of_countP_le_one hOnce (hMem hv) h (beq_self_eq_true key) (beq_self_eq_true key)
  rw [hv, (Prod.mk.inj hEq).2]

/-- Where a key has at most one entry the order of the entries does not matter for it. -/
theorem lookup_eq_of_perm {l l' : List (Text × β)} (h : l.Perm l') {key : Text}
    (hOnce : l.countP (fun entry => entry.1 == key) ≤ 1) : l'.lookup key = l.lookup key := by
  have hOnce' : l'.countP (fun entry => entry.1 == key) ≤ 1 := by rwa [← h.countP_eq]
  ext value
  rw [lookup_eq_some_iff_mem hOnce, lookup_eq_some_iff_mem hOnce', h.mem_iff]

theorem lookup_eq_head? (l : List (Text × β)) (key : Text) :
    l.lookup key = (l.filter fun entry => entry.1 == key).head?.map Prod.snd := by
  induction l with
  | nil => rfl
  | cons entry l ih =>
    by_cases hKey : entry.1 = key
    · have hSame : (key == entry.1) = true := beq_iff_eq.mpr hKey.symm
      rw [List.lookup_cons, hSame, List.filter_cons_of_pos (by simpa using hKey)]
      rfl
    · have hOther : (key == entry.1) = false := beq_eq_false_iff_ne.mpr (Ne.symm hKey)
      rw [List.lookup_cons, hOther, ih, List.filter_cons_of_neg (by simpa using hKey)]

/-- A lookup from the end finds the last entry of a key. -/
theorem lookup_reverse (l : List (Text × β)) (key : Text) :
    l.reverse.lookup key = (l.filter fun entry => entry.1 == key).getLast?.map Prod.snd := by
  rw [lookup_eq_head?, List.filter_reverse, List.head?_reverse]

theorem lookup_filter_ne (l : List (Text × β)) {key other : Text} (h : key ≠ other) :
    (l.filter fun entry => entry.1 != other).lookup key = l.lookup key := by
  induction l with
  | nil => rfl
  | cons entry l ih =>
    by_cases hOther : entry.1 = other
    · have hKey : (key == entry.1) = false := beq_eq_false_iff_ne.mpr fun hEq => h (hEq.trans hOther)
      rw [List.filter_cons_of_neg (by simp [hOther]), ih, List.lookup_cons, hKey]
    · rw [List.filter_cons_of_pos (by simp [hOther]), List.lookup_cons, List.lookup_cons, ih]

theorem lookup_filter_self (l : List (Text × β)) (key : Text) :
    (l.filter fun entry => entry.1 != key).lookup key = none := by
  rw [List.lookup_eq_none_iff]
  intro entry hEntry
  exact bne_iff_ne.mpr (bne_iff_ne.mp (List.mem_filter.mp hEntry).2).symm

end GoCommands
