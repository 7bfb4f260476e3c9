import Mathlib.Data.List.Basic

/-! # What a fold leaves in a part of its state

Each law is about one part of the state and follows from what a single step does to that part.
-/

namespace GoCommands

variable {σ α β : Type} {step : σ → α → σ}

/-- What single steps bring about, each whatever the others do, is brought about by all of them together exactly
if one of them does. -/
theorem foldl_iff {P : σ → Prop} {Q : α → Prop} (hStep : ∀ s a, P (step s a) ↔ P s ∨ Q a) (as : List α) (s : σ) :
    P (as.foldl step s) ↔ P s ∨ ∃ a ∈ as, Q a := by
  induction as generalizing s with
  | nil => simp
  | cons a as ih => rw [List.foldl_cons, ih, hStep, List.exists_mem_cons_iff, or_assoc]

theorem field_foldl_eq {field : σ → β} (hStep : ∀ s a, field (step s a) = field s) (as : List α) (s : σ) :
    field (as.foldl step s) = field s := by
  induction as generalizing s with
  | nil => rfl
  | cons a as ih => rw [List.foldl_cons, ih, hStep]

theorem field_foldl_or {field : σ → Option β} {found : α → Option β}
    (hStep : ∀ s a, field (step s a) = (field s).or (found a)) (as : List α) (s : σ) :
    field (as.foldl step s) = (field s).or (as.findSome? found) := by
  induction as generalizing s with
  | nil => exact Option.or_none.symm
  | cons a as ih =>
    rw [List.foldl_cons, ih, hStep, List.findSome?_cons, Option.or_assoc]
    cases found a <;> rfl

theorem field_foldl_last {field : σ → Option β} {found : α → Option β}
    (hStep : ∀ s a, field (step s a) = (found a).or (field s)) (as : List α) (s : σ) :
    field (as.foldl step s) = (as.reverse.findSome? found).or (field s) := by
  induction as generalizing s with
  | nil => rfl
  | cons a as ih =>
    rw [List.foldl_cons, ih, hStep, List.reverse_cons, List.findSome?_append, List.findSome?_singleton,
      Option.or_assoc]

theorem field_foldl_append {field : σ → List β} {found : α → List β}
    (hStep : ∀ s a, field (step s a) = field s ++ found a) (as : List α) (s : σ) :
    field (as.foldl step s) = field s ++ as.flatMap found := by
  induction as generalizing s with
  | nil => exact (List.append_nil _).symm
  | cons a as ih => rw [List.foldl_cons, ih, hStep, List.flatMap_cons, List.append_assoc]

theorem field_foldl_prepend {field : σ → List β} {found : α → List β}
    (hStep : ∀ s a, field (step s a) = (found a).reverse ++ field s) (as : List α) (s : σ) :
    field (as.foldl step s) = (as.flatMap found).reverse ++ field s := by
  induction as generalizing s with
  | nil => rfl
  | cons a as ih =>
    rw [List.foldl_cons, ih, hStep, List.flatMap_cons, List.reverse_append, List.append_assoc]

-- For lists that grow at the front, where what the steps add comes in reverse order.
theorem field_foldl_perm {field : σ → List β} {found : α → List β}
    (hStep : ∀ s a, (field (step s a)).Perm (found a ++ field s)) (as : List α) (s : σ) :
    (field (as.foldl step s)).Perm (as.flatMap found ++ field s) := by
  induction as generalizing s with
  | nil => exact .refl _
  | cons a as ih =>
    rw [List.foldl_cons, List.flatMap_cons]
    refine (ih _).trans (((hStep s a).append_left _).trans ?_)
    rw [← List.append_assoc]
    exact List.perm_append_comm.append_right _

end GoCommands
