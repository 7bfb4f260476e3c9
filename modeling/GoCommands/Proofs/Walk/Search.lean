import Mathlib.Order.Defs.Unbundled

/-! # Breadth-first search in a tree

A search keeps a queue and puts the children of each element it takes at the end. Nothing is remembered
of the elements visited before, so an element counts as often as the tree has it.
-/

namespace GoCommands.Search

variable {α : Type} (children : α → List α)

/-- A search that starts with a queue takes the elements of `order` and is left with the queue `rest`. -/
inductive Visits : (queue order rest : List α) → Prop
  | done (queue : List α) : Visits queue [] queue
  | next {a : α} {queue order rest : List α} :
    Visits (queue ++ children a) order rest → Visits (a :: queue) (a :: order) rest

def level (root : α) : (distance : Nat) → List α
  | 0 => [root]
  | n + 1 => (level root n).flatMap children

variable {children} {queue order rest : List α}

theorem Visits.append_eq (h : Visits children queue order rest) :
    order ++ rest = queue ++ order.flatMap children := by
  induction h with
  | done => simp
  | next _ ih => rw [List.cons_append, ih, List.flatMap_cons, List.cons_append, List.append_assoc]

theorem Visits.forall_mem {P : α → Prop} (h : Visits children queue order rest) (hQueue : ∀ a ∈ queue, P a)
    (hChildren : ∀ a, P a → ∀ b ∈ children a, P b) : (∀ a ∈ order, P a) ∧ ∀ a ∈ rest, P a := by
  induction h with
  | done queue => exact ⟨List.forall_mem_nil P, hQueue⟩
  | @next a queue order rest _ ih =>
    have hHead : P a := hQueue a List.mem_cons_self
    obtain ⟨hOrder, hRest⟩ := ih fun b hb => by
      rcases List.mem_append.mp hb with hb | hb
      · exact hQueue b (List.mem_cons_of_mem a hb)
      · exact hChildren a hHead b hb
    refine ⟨fun b hb => ?_, hRest⟩
    rcases List.mem_cons.mp hb with rfl | hb
    · exact hHead
    · exact hOrder b hb

theorem Visits.exists_eq_append {whole : List α} (h : Visits children queue order rest)
    (hWhole : Visits children queue whole []) : ∃ more, whole = order ++ more ∧ Visits children rest more [] := by
  induction h generalizing whole with
  | done => exact ⟨whole, rfl, hWhole⟩
  | next _ ih =>
    cases hWhole with
    | next hWhole =>
      obtain ⟨more, rfl, hMore⟩ := ih hWhole
      exact ⟨more, rfl, hMore⟩

theorem Visits.append {order' rest' : List α} (h : Visits children queue order rest)
    (h' : Visits children rest order' rest') : Visits children queue (order ++ order') rest' := by
  induction h with
  | done => exact h'
  | next _ ih => exact .next (ih h')

variable (children)

/-- Once a queue has been taken, exactly the children of its elements are left. -/
theorem visits_queue (queue behind : List α) :
    Visits children (queue ++ behind) queue (behind ++ queue.flatMap children) := by
  induction queue generalizing behind with
  | nil => simpa using Visits.done behind
  | cons a queue ih =>
    rw [List.cons_append]
    apply Visits.next
    rw [List.append_assoc, List.flatMap_cons, ← List.append_assoc behind]
    exact ih (behind ++ children a)

theorem visits_levels (root : α) (n : Nat) :
    Visits children [root] ((List.range n).flatMap (level children root)) (level children root n) := by
  induction n with
  | zero => exact .done [root]
  | succ n ih =>
    have hLevel := visits_queue children (level children root n) []
    rw [List.append_nil, List.nil_append] at hLevel
    rw [List.range_succ, List.flatMap_append, List.flatMap_singleton]
    exact ih.append hLevel

section Order

variable {children} {lt : α → α → Prop} [IsTrans α lt]
  (hLater : ∀ a, ∀ b ∈ children a, lt a b)
  (hCousins : ∀ a b, lt a b → ∀ a' ∈ children a, ∀ b' ∈ children b, lt a' b')
include hLater

theorem Visits.lt_of_mem {a : α} (h : Visits children queue order rest) (hQueue : ∀ b ∈ queue, lt a b) :
    ∀ b ∈ order, lt a b :=
  (h.forall_mem hQueue fun b hb c hc => trans_of lt hb (hLater b c hc)).1

include hCousins

theorem Visits.pairwise (h : Visits children queue order rest) (hQueue : queue.Pairwise lt)
    (hChildren : ∀ a ∈ queue, ∀ b ∈ queue, ∀ b' ∈ children b, lt a b')
    (hSiblings : ∀ a ∈ order, (children a).Pairwise lt) : order.Pairwise lt := by
  induction h with
  | done => exact .nil
  | @next a queue order rest h ih =>
    -- Each element of the queue stands before the children of all of them. The children of the head are
    -- before those of the others, so at the end of the queue they keep it in order.
    obtain ⟨hHead, hQueue⟩ := List.pairwise_cons.mp hQueue
    have hBefore : ∀ b ∈ queue ++ children a, lt a b := by
      intro b hb
      rcases List.mem_append.mp hb with hb | hb
      · exact hHead b hb
      · exact hLater a b hb
    refine List.pairwise_cons.mpr ⟨h.lt_of_mem hLater hBefore, ih ?_ ?_ fun b hb => hSiblings b (.tail a hb)⟩
    · refine List.pairwise_append.mpr ⟨hQueue, hSiblings a (.head order), fun b hb b' hb' => ?_⟩
      exact hChildren b (.tail a hb) a (.head queue) b' hb'
    · intro b hb c hc c' hc'
      rcases List.mem_append.mp hb with hb | hb
      · rcases List.mem_append.mp hc with hc | hc
        · exact hChildren b (.tail a hb) c (.tail a hc) c' hc'
        · have hChild := hChildren b (.tail a hb) a (.head queue) c hc
          exact trans_of lt hChild (hLater c c' hc')
      · exact hCousins a c (hBefore c hc) b hb c' hc'

end Order

end GoCommands.Search
