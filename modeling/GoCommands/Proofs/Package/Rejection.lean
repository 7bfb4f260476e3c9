import GoCommands.Proofs.Package.ExactPromotion
import GoCommands.Proofs.Package.Feeding
import GoCommands.Proofs.Path.Order

/-! # When the assembly of a package fails

A recorded entry point comes before everything else. Without one the assembly fails exactly if two identifiers that
have become commands answer to one name, and then it names two such identifiers.
-/

namespace GoCommands

/-- The path is that of a file of which a new scan records a function that starts a program. -/
def TaggedFile.RecordsEntryPoint (files : List TaggedFile) (p : Path) : Prop :=
  ∃ unit ∈ scanned files, unit.1 = p ∧ ∃ item ∈ unit.reached, item.isEntryPoint

/-- A list of exactly these paths, in strict order. Of several spellings of a path it has one. -/
structure Path.Lists (recorded : Path → Prop) (paths : List Path) : Prop where
  ascending : paths.Pairwise fun p q => p.rank < q.rank
  sound : ∀ p ∈ paths, recorded p
  complete : ∀ p, recorded p → ∃ q ∈ paths, p.same q

namespace PackageScan

theorem distinctPaths_of_short {paths : List Path} (h : ∀ p q rest, paths = p :: q :: rest → False) :
    distinctPaths paths = paths := by
  rw [distinctPaths]
  exact h

theorem distinctPaths_sublist (paths : List Path) : (distinctPaths paths).Sublist paths := by
  induction paths using distinctPaths.induct with
  | case1 p q rest hSame ih =>
    rw [distinctPaths, if_pos hSame]
    exact ih.trans ((List.sublist_cons_self q rest).cons_cons p)
  | case2 p q rest hApart ih =>
    rw [distinctPaths, if_neg hApart]
    exact ih.cons_cons p
  | case3 paths hShort =>
    rw [distinctPaths_of_short hShort]

theorem pairwise_distinctPaths {paths : List Path} (h : paths.Pairwise fun p q => p.rank ≤ q.rank) :
    (distinctPaths paths).Pairwise fun p q => p.rank < q.rank := by
  induction paths using distinctPaths.induct with
  | case1 p q rest hSame ih =>
    rw [distinctPaths, if_pos hSame]
    exact ih (h.sublist ((List.sublist_cons_self q rest).cons_cons p))
  | case2 p q rest hApart ih =>
    rw [distinctPaths, if_neg hApart]
    obtain ⟨hHead, hTail⟩ := List.pairwise_cons.mp h
    have hNext : p.rank < q.rank :=
      lt_of_le_of_ne (hHead q List.mem_cons_self) fun hEq => hApart ((Path.rank_eq_iff p q).mp hEq)
    refine List.pairwise_cons.mpr ⟨fun r hr => ?_, ih hTail⟩
    rcases List.mem_cons.mp ((distinctPaths_sublist _).subset hr) with rfl | hr
    · exact hNext
    · exact hNext.trans_le ((List.pairwise_cons.mp hTail).1 r hr)
  | case3 paths hShort =>
    cases paths with
    | nil => simp [distinctPaths]
    | cons p rest =>
      cases rest with
      | nil => simp [distinctPaths]
      | cons q rest => exact absurd rfl (hShort p q rest)

theorem exists_mem_distinctPaths (paths : List Path) : ∀ p ∈ paths, ∃ q ∈ distinctPaths paths, p.same q := by
  have hRefl : ∀ p : Path, p.same p := fun p => (Path.same_iff p p).mpr rfl
  induction paths using distinctPaths.induct with
  | case1 first second rest hSame ih =>
    rw [distinctPaths, if_pos hSame]
    obtain ⟨hFirst, hRest⟩ := List.forall_mem_cons.mp ih
    refine List.forall_mem_cons.mpr ⟨hFirst, List.forall_mem_cons.mpr ⟨?_, hRest⟩⟩
    -- The second path is left out, and the one that stands for the first stands for it too.
    obtain ⟨q, hq, hStands⟩ := hFirst
    rw [Path.same_iff] at hSame hStands
    exact ⟨q, hq, (Path.same_iff second q).mpr (hSame.symm.trans hStands)⟩
  | case2 first second rest hApart ih =>
    rw [distinctPaths, if_neg hApart]
    refine List.forall_mem_cons.mpr ⟨⟨first, List.mem_cons_self, hRefl first⟩, fun p hp => ?_⟩
    obtain ⟨q, hq, hSame⟩ := ih p hp
    exact ⟨q, List.mem_cons_of_mem first hq, hSame⟩
  | case3 paths hShort =>
    rw [distinctPaths_of_short hShort]
    exact fun p hp => ⟨p, hp, hRefl p⟩

theorem lists_distinctPaths (paths : List Path) :
    Path.Lists (· ∈ paths) (distinctPaths (paths.mergeSort Path.le)) where
  ascending := pairwise_distinctPaths (Path.pairwise_mergeSort paths)
  sound _ hp := List.mem_mergeSort.mp ((distinctPaths_sublist _).subset hp)
  complete p hp := exists_mem_distinctPaths _ p (List.mem_mergeSort.mpr hp)

/-- The identifier is that of a type or of a function that the links and the wrappers leave. -/
def IsCommand (s : PackageScan) (name : Text) : Prop := s.IsTypeCommand name ∨ s.IsFunctionCommand name

/-- Two identifiers that have become commands answer to one name. -/
structure Clash (s : PackageScan) (commandName first second : Text) : Prop where
  firstCommand : s.IsCommand first
  secondCommand : s.IsCommand second
  apart : first ≠ second
  firstName : CommandName.ofIdentifier first = commandName
  secondName : CommandName.ofIdentifier second = commandName

theorem mem_names_found (s : PackageScan) (name : Text) :
    name ∈ s.found.map CommandInfo.name ↔ s.IsCommand name := by
  rw [found, List.map_append, List.mem_append, mem_names_types, mem_names_unwrapped, promotesType_iff,
    promotesFunction_iff_isFunctionCommand, IsCommand]

/-- A collision names two commands that it has met. -/
theorem exists_of_collision {earlier later : List CommandInfo} {e : DiscoverError}
    (h : collision earlier later = some e) :
    ∃ a ∈ earlier ++ later, ∃ b ∈ later, a.name ≠ b.name ∧ a.commandName = b.commandName ∧
      e = .duplicateCommand b.commandName a.name b.name := by
  induction later generalizing earlier with
  | nil => cases h
  | cons c rest ih =>
    have hSub : earlier ++ rest ⊆ earlier ++ c :: rest :=
      ((List.sublist_cons_self c rest).append_left earlier).subset
    rw [collision] at h
    split at h
    · rename_i other hFind
      split at h
      · obtain ⟨a, ha, b, hb, hClash⟩ := ih h
        exact ⟨a, hSub ha, b, List.mem_cons_of_mem c hb, hClash⟩
      · rename_i hName
        cases h
        have hCommand : other.commandName = c.commandName := by simpa using List.find?_some hFind
        refine ⟨other, List.mem_append_left _ (List.mem_of_find?_eq_some hFind), c, List.mem_cons_self, ?_,
          hCommand, rfl⟩
        simpa using hName
    · obtain ⟨a, ha, b, hb, hClash⟩ := ih h
      rw [List.append_assoc, List.singleton_append] at ha
      exact ⟨a, ha, b, List.mem_cons_of_mem c hb, hClash⟩

theorem sameIdentifier_found_iff (s : PackageScan) :
    SameIdentifier s.found ↔ ¬ ∃ name first second, s.Clash name first second := by
  constructor
  · rintro hSame ⟨name, first, second, hClash⟩
    obtain ⟨a, ha, rfl⟩ := List.mem_map.mp ((mem_names_found s first).mpr hClash.firstCommand)
    obtain ⟨b, hb, rfl⟩ := List.mem_map.mp ((mem_names_found s second).mpr hClash.secondCommand)
    exact hClash.apart (hSame a ha b hb (hClash.firstName.trans hClash.secondName.symm))
  · intro hNone a ha b hb hName
    by_contra hApart
    refine hNone ⟨b.commandName, a.name, b.name, ?_, ?_, hApart, hName, rfl⟩
    · exact (mem_names_found s a.name).mp (List.mem_map_of_mem ha)
    · exact (mem_names_found s b.name).mp (List.mem_map_of_mem hb)

theorem finish_eq_error_iff (s : PackageScan) (e : DiscoverError) :
    s.finish = .error e ↔
      (s.entryPoints ≠ [] ∧ e = .entryPoint (distinctPaths (s.entryPoints.mergeSort Path.le))) ∨
      (s.entryPoints = [] ∧ collision [] s.found = some e) := by
  rw [finish, found, unwrapped]
  cases s.entryPoints with
  | cons p ps => simp [@eq_comm _ e]
  | nil =>
    simp only [List.isEmpty_nil, Bool.not_true, Bool.false_eq_true, if_false, ne_eq, not_true_eq_false, false_and,
      true_and, false_or]
    split
    · rename_i found hCollision
      rw [hCollision, Except.error.injEq, Option.some.injEq]
    · rename_i hCollision
      simp [hCollision]

theorem clash_of_collision {s : PackageScan} {e : DiscoverError} (h : collision [] s.found = some e) :
    ∃ name first second, e = .duplicateCommand name first second ∧ s.Clash name first second := by
  obtain ⟨a, ha, b, hb, hApart, hName, rfl⟩ := exists_of_collision h
  refine ⟨_, _, _, rfl, ?_, ?_, hApart, hName, rfl⟩
  · exact (mem_names_found s a.name).mp (List.mem_map_of_mem ha)
  · exact (mem_names_found s b.name).mp (List.mem_map_of_mem hb)

theorem finish_eq_entryPoint_iff (s : PackageScan) (paths : List Path) :
    s.finish = .error (.entryPoint paths) ↔
      s.entryPoints ≠ [] ∧ paths = distinctPaths (s.entryPoints.mergeSort Path.le) := by
  rw [finish_eq_error_iff, DiscoverError.entryPoint.injEq]
  refine or_iff_left ?_
  rintro ⟨-, hCollision⟩
  obtain ⟨_, _, _, hError, -⟩ := clash_of_collision hCollision
  cases hError

theorem finish_eq_duplicateCommand_iff (s : PackageScan) (name first second : Text) :
    s.finish = .error (.duplicateCommand name first second) ↔
      s.entryPoints = [] ∧ collision [] s.found = some (.duplicateCommand name first second) := by
  rw [finish_eq_error_iff]
  refine or_iff_right ?_
  rintro ⟨-, hError⟩
  cases hError

theorem clash_of_finish {s : PackageScan} {name first second : Text}
    (h : s.finish = .error (.duplicateCommand name first second)) : s.Clash name first second := by
  obtain ⟨-, hCollision⟩ := (finish_eq_duplicateCommand_iff s name first second).mp h
  obtain ⟨_, _, _, hError, hClash⟩ := clash_of_collision hCollision
  cases hError
  exact hClash

theorem exists_collision_iff (s : PackageScan) :
    (∃ name first second, collision [] s.found = some (.duplicateCommand name first second)) ↔
      ∃ name first second, s.Clash name first second := by
  have hNone := (collision_found_eq_none_iff s).trans (sameIdentifier_found_iff s)
  constructor
  · rintro ⟨name, first, second, hCollision⟩
    by_contra hNot
    rw [hNone.mpr hNot] at hCollision
    cases hCollision
  · intro hClash
    cases hCollision : collision [] s.found with
    | none => exact absurd hClash (hNone.mp hCollision)
    | some e =>
      obtain ⟨name, first, second, rfl, -⟩ := clash_of_collision hCollision
      exact ⟨name, first, second, rfl⟩

theorem mem_entryPoints_feed (dir : Path) (files : List TaggedFile) (p : Path) :
    p ∈ ((new dir).feed files).entryPoints ↔ TaggedFile.RecordsEntryPoint files p := by
  rw [entryPoints_feed, TaggedFile.RecordsEntryPoint]
  simp only [List.mem_flatMap]
  constructor
  · rintro ⟨unit, hUnit, item, hItem, hp⟩
    split at hp
    · rename_i hEntry
      exact ⟨unit, hUnit, (List.mem_singleton.mp hp).symm, item, hItem, hEntry⟩
    · cases hp
  · rintro ⟨unit, hUnit, rfl, item, hItem, hEntry⟩
    exact ⟨unit, hUnit, item, hItem, by rw [if_pos hEntry]; exact List.mem_singleton_self _⟩

theorem entryPoints_feed_eq_nil_iff (dir : Path) (files : List TaggedFile) :
    ((new dir).feed files).entryPoints = [] ↔ ¬ ∃ p, TaggedFile.RecordsEntryPoint files p := by
  rw [List.eq_nil_iff_forall_not_mem]
  simp only [mem_entryPoints_feed, not_exists]

/-- The assembly rejects recorded entry points, then two commands of one name, and nothing else. -/
theorem finish_fails_iff (dir : Path) (files : List TaggedFile) :
    ((∃ paths, ((new dir).feed files).finish = .error (.entryPoint paths)) ↔
      ∃ p, TaggedFile.RecordsEntryPoint files p) ∧
    (∀ paths, ((new dir).feed files).finish = .error (.entryPoint paths) →
      Path.Lists (TaggedFile.RecordsEntryPoint files) paths) ∧
    ((∃ name first second, ((new dir).feed files).finish = .error (.duplicateCommand name first second)) ↔
      (¬ ∃ p, TaggedFile.RecordsEntryPoint files p) ∧
        ∃ name first second, ((new dir).feed files).Clash name first second) ∧
    (∀ name first second, ((new dir).feed files).finish = .error (.duplicateCommand name first second) →
      ((new dir).feed files).Clash name first second) ∧
    ((∃ m, ((new dir).feed files).finish = .ok m) ↔
      (¬ ∃ p, TaggedFile.RecordsEntryPoint files p) ∧
        ¬ ∃ name first second, ((new dir).feed files).Clash name first second) := by
  have hEntries := entryPoints_feed_eq_nil_iff dir files
  refine ⟨?_, ?_, ?_, ?_, ?_⟩
  · simp only [finish_eq_entryPoint_iff, exists_and_left, exists_eq, and_true, ne_eq, hEntries, not_not]
  · intro paths h
    obtain ⟨-, rfl⟩ := (finish_eq_entryPoint_iff _ paths).mp h
    have hLists := lists_distinctPaths ((new dir).feed files).entryPoints
    simp only [mem_entryPoints_feed] at hLists
    exact hLists
  · simp only [finish_eq_duplicateCommand_iff, exists_and_left, hEntries, exists_collision_iff]
  · intro name first second h
    obtain ⟨-, hCollision⟩ := (finish_eq_duplicateCommand_iff _ _ _ _).mp h
    obtain ⟨_, _, _, hError, hClash⟩ := clash_of_collision hCollision
    cases hError
    exact hClash
  · simp only [finish_eq_ok_iff, exists_and_left, exists_eq, and_true, hEntries, sameIdentifier_found_iff]

end PackageScan

end GoCommands
