import GoCommands.Proofs.Path

/-! # Normalized paths

A normalized path leads where the path leads that it comes from. So the directory of one is again
normalized, and leads to the step before.
-/

namespace GoCommands.Path

theorem components_slash {dir : Path} (hDir : dir ≠ []) : components (dir ++ ['/']) = dir.components := by
  rw [components_append hDir]
  exact List.append_nil _

/-- An empty name stays in the directory. -/
theorem location_join_nil (dir : Path) : (join dir []).location = dir.location := by
  rw [join]
  split
  · rename_i hEmpty
    have hDir : dir = [] := by simpa [isAbsolute] using hEmpty
    rw [hDir]
  · rename_i hDir
    split
    · rw [List.append_nil]
    · rw [location, components_slash (by rintro rfl; exact hDir rfl)]
      rfl

theorem normalize_join_nil (dir : Path) : (join dir []).normalize = dir.normalize := by
  rw [normalize, location_join_nil]
  rfl

namespace Location

theorem location_front_append {l : Location} (h : l.Proper) {n : Text} (hn : IsName n) :
    location (l.front ++ n) = (location l.render).step (.name n) := by
  rw [location, location]
  by_cases hNames : l.names = []
  · obtain ⟨absolute, names⟩ := l
    obtain rfl : names = [] := hNames
    cases absolute with
    | false =>
      have hFront : front ⟨false, []⟩ = [] := rfl
      rw [hFront, List.nil_append, hn.components_eq]
      rfl
    | true =>
      have hFront : front ⟨true, []⟩ ++ n = [] ++ '/' :: n := rfl
      rw [hFront, hn.components_slash, List.foldl_append]
      rfl
  · have hFront : l.front = l.render ++ ['/'] := if_neg (by simpa using hNames)
    obtain ⟨before, m, rfl, hm⟩ := exists_step h hNames
    have hNonempty : (before.step (.name m)).render ≠ [] := by
      simp [render_step, hm.nonempty]
    rw [hFront, List.append_assoc, List.singleton_append, hn.components_slash, components_slash hNonempty,
      List.foldl_append]
    rfl

namespace Resolved

variable {l : Location} (h : l.Resolved)
include h

theorem location_render : location l.render = l := by
  induction h with
  | top absolute => cases absolute <;> rfl
  | above absolute => cases absolute <;> rfl
  | name hBefore hName ih => rw [render_step, location_front_append hBefore.proper hName, ih]

/-- The directory is one step before, and this step is a name or leads above the top. -/
theorem exists_of_directory {dir : Path} (hDir : directory l.render = some dir) :
    ∃ before : Location, before.Resolved ∧ dir = before.render ∧
      ((∃ n, IsName n ∧ l = before.step (.name n)) ∨
        ∃ absolute, before = ⟨absolute, []⟩ ∧ l = ⟨absolute, [['.', '.']]⟩) := by
  cases h with
  | top absolute => cases absolute <;> cases hDir
  | above absolute =>
    have hTop : directory (Location.render ⟨absolute, [['.', '.']]⟩) = some (Location.render ⟨absolute, []⟩) :=
      directory_render (Resolved.top absolute).proper isStep_up
    rw [hTop] at hDir
    exact ⟨_, .top absolute, (Option.some.inj hDir).symm, .inr ⟨absolute, rfl, rfl⟩⟩
  | name hBefore hName =>
    rw [directory_render hBefore.proper hName.toIsStep] at hDir
    exact ⟨_, hBefore, (Option.some.inj hDir).symm, .inl ⟨_, hName, rfl⟩⟩

end Resolved

theorem Resolved.render_inj {l l' : Location} (h : l.Resolved) (h' : l'.Resolved) :
    l.render = l'.render ↔ l = l' := by
  refine ⟨fun hSame => ?_, congrArg render⟩
  rw [← h.location_render, hSame, h'.location_render]

end Location

theorem location_normalize (p : Path) : (normalize p).location = p.location :=
  (resolved_location p).location_render

/-- A name in a directory has one place, however the directory is written. -/
theorem normalize_join_inj {dir dir' : Path} (hDir : dir.normalize = dir'.normalize) {m n : Text}
    (hm : IsName m) (hn : IsName n) : (join dir m).normalize = (join dir' n).normalize ↔ m = n := by
  refine ⟨eq_of_normalize_join_eq hm hn, ?_⟩
  rintro rfl
  rw [normalize, normalize, location_join dir hm, location_join dir' hm, ← location_normalize dir, hDir,
    location_normalize]

/-- A normalized path in a directory is a name behind it, or it leads above the top. -/
theorem child_cases {l : Location} (hl : l.Resolved) {dir : Path}
    (hDir : directory l.render = some dir.normalize) :
    (∃ n, IsName n ∧ l.render = (join dir n).normalize) ∨
      ∃ absolute, dir.normalize = Location.render ⟨absolute, []⟩ ∧
        l.render = Location.render ⟨absolute, [['.', '.']]⟩ := by
  obtain ⟨before, hBefore, hSame, hStep⟩ := hl.exists_of_directory hDir
  obtain rfl := ((resolved_location dir).render_inj hBefore).mp hSame
  rcases hStep with ⟨n, hn, rfl⟩ | ⟨absolute, hTop, rfl⟩
  · exact .inl ⟨n, hn, by rw [normalize, location_join dir hn]⟩
  · exact .inr ⟨absolute, congrArg Location.render hTop, rfl⟩

end GoCommands.Path
