import GoCommands.Path
import Mathlib.Data.Char
import Mathlib.Data.List.Lex

/-! # The order of paths

Paths are compared component by component, so two spellings of one path stand at one place of the order.
-/

namespace GoCommands.Path

theorem same_iff (p q : Path) : p.same q ↔ p.components = q.components := beq_iff_eq

theorem Component.rank_injective : Function.Injective Component.rank := by
  intro a b h
  have hName : Function.Injective (List.map Char.toNat) :=
    List.map_injective_iff.mpr fun _ _ hChar => Char.toNat_inj.mp hChar
  cases a <;> cases b <;> simp_all [Component.rank, hName.eq_iff]

theorem rank_eq_iff (p q : Path) : p.rank = q.rank ↔ p.same q := by
  rw [same_iff, rank, rank]
  exact (List.map_injective_iff.mpr Component.rank_injective).eq_iff

theorem le_iff (p q : Path) : p.le q ↔ p.rank ≤ q.rank := by
  rw [le, Bool.not_eq_true', decide_eq_false_iff_not, not_lt]

theorem pairwise_mergeSort (ps : List Path) : (ps.mergeSort le).Pairwise fun p q => p.rank ≤ q.rank := by
  have hTrans : ∀ p q r : Path, p.le q → q.le r → p.le r := by
    intro p q r hpq hqr
    rw [le_iff] at *
    exact hpq.trans hqr
  have hTotal : ∀ p q : Path, p.le q || q.le p := by
    intro p q
    rw [Bool.or_eq_true, le_iff, le_iff]
    exact le_total _ _
  exact (List.pairwise_mergeSort hTrans hTotal ps).imp fun h => (le_iff _ _).mp h

/-- Different paths are in strict order when they are sorted. -/
theorem pairwise_lt_mergeSort {ps : List Path} (h : (ps.map components).Nodup) :
    (ps.mergeSort le).Pairwise fun p q => p.rank < q.rank := by
  have hSorted : ((ps.mergeSort le).map components).Nodup :=
    ((List.mergeSort_perm ps le).map components).nodup_iff.mpr h
  refine ((pairwise_mergeSort ps).and (List.pairwise_map.mp hSorted)).imp ?_
  rintro p q ⟨hLe, hNot⟩
  refine lt_of_le_of_ne hLe fun hRank => hNot ?_
  exact (same_iff p q).mp ((rank_eq_iff p q).mp hRank)

end GoCommands.Path
