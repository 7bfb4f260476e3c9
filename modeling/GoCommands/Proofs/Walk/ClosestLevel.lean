import GoCommands.Proofs.Walk.Cut
import GoCommands.Proofs.Walk.MultiPackage

/-! # Walks for one package

Such a walk reads the levels of the tree one after the other and ends with the first level that has a tagged
directory. So it sees what a walk for several packages sees of the tree without all deeper levels.
-/

namespace GoCommands

namespace Walk

variable {fs : FileSystem} {options : WalkOptions} {start : Path}

theorem run_of_deeper (hOne : options.multiPackage = false) {fuel : Nat} {queue : List (List Text)}
    {first : TaggedDir} {rest : List TaggedDir} (hQueue : ∀ chain ∈ queue, first.depth < chain.length) :
    run fs options (fuel + 1) ⟨queueOf start queue, first :: rest⟩ = some (.ok (first :: rest)) := by
  cases queue with
  | nil => rfl
  | cons chain queue =>
    have hOver : isOver options ⟨queueOf start queue, first :: rest⟩ chain.length = true := by
      simpa [isOver, hOne] using hQueue chain (.head queue)
    rw [queueOf, List.map_cons, run, ← queueOf, if_pos hOver]

section Mode

variable (fs : FileSystem) (start : Path) (options : WalkOptions) (multi : Bool)

theorem taggedFiles_set (dir : Path) (entries : List DirEntry) :
    taggedFiles fs { options with multiPackage := multi } dir entries = taggedFiles fs options dir entries := by
  induction entries with
  | nil => rfl
  | cons e rest ih =>
    rw [taggedFiles, taggedFiles, ih]
    rfl

theorem visit_set (dir : Path) : visit fs { options with multiPackage := multi } dir = visit fs options dir := by
  simp only [visit, taggedFiles_set]
  rfl

theorem taggedDir_set : taggedDir fs { options with multiPackage := multi } start = taggedDir fs options start := by
  funext chain
  rw [taggedDir, visit_set]
  rfl

theorem visitable_set : Visitable fs { options with multiPackage := multi } start = Visitable fs options start := by
  funext chain
  rw [Visitable, visit_set]
  rfl

theorem children_set : children fs { options with multiPackage := multi } start = children fs options start := rfl

theorem levelsAbove_set (depth : Nat) :
    levelsAbove fs { options with multiPackage := multi } start depth = levelsAbove fs options start depth := rfl

end Mode

end Walk

section

variable {fs : FileSystem} {start : Path} {options : WalkOptions} {depth fuel : Nat} {dirs : List TaggedDir}

/-- If a walk of the cut tree finds directories at the depth only, these are the tagged ones of the levels
down to the depth in the whole tree, and all directories there can be visited. -/
theorem levelsAbove_of_walk_cutBelow
    (hCut : walk fuel (Walk.cutBelow fs options start depth) start { options with multiPackage := true } =
      some (.ok dirs))
    (hDepth : ∀ dir ∈ dirs, dir.depth = depth) :
    (∀ chain ∈ Walk.levelsAbove fs options start (depth + 1), Walk.Visitable fs options start chain) ∧
      (Walk.levelsAbove fs options start (depth + 1)).length ≤ fuel ∧
      dirs = (Walk.levelsAbove fs options start (depth + 1)).filterMap (Walk.taggedDir fs options start) := by
  obtain ⟨order, hVisits, hVisitable, hLength, hDirs⟩ := exists_visits_of_walk rfl hCut
  rw [Walk.children_set] at hVisits
  rw [Walk.visitable_set] at hVisitable
  rw [Walk.taggedDir_set] at hDirs
  obtain ⟨deep, rfl, hLonger⟩ := Walk.exists_longer_of_visits hVisits depth
  rw [Walk.levelsAbove_cutBelow] at hVisitable hLength hDirs
  rw [List.filterMap_append] at hDirs
  -- What is found among longer chains is deeper, but nothing found is.
  have hDeep : deep.filterMap (Walk.taggedDir (Walk.cutBelow fs options start depth) options start) = [] := by
    apply Walk.filterMap_taggedDir_eq_nil hLonger
    intro dir hDir
    apply hDepth
    rw [hDirs]
    exact List.mem_append_right _ hDir
  rw [hDeep, List.append_nil] at hDirs
  have hUpper : ∀ chain ∈ Walk.levelsAbove fs options start (depth + 1),
      Walk.Visitable (Walk.cutBelow fs options start depth) options start chain :=
    fun chain hChain => hVisitable chain (List.mem_append_left _ hChain)
  refine ⟨fun chain hChain => (hUpper chain hChain).of_cutBelow, ?_, ?_⟩
  · rw [List.length_append] at hLength
    exact Nat.le_of_add_right_le hLength
  · rw [hDirs]
    exact List.filterMap_congr fun chain hChain => Walk.taggedDir_cutBelow (hUpper chain hChain)

theorem walk_of_levelsAbove (hOne : options.multiPackage = false)
    (hFuel : (Walk.levelsAbove fs options start (depth + 1)).length < fuel)
    (hVisitable : ∀ chain ∈ Walk.levelsAbove fs options start (depth + 1), Walk.Visitable fs options start chain)
    (hDirs : dirs = (Walk.levelsAbove fs options start (depth + 1)).filterMap (Walk.taggedDir fs options start))
    (hFound : dirs ≠ []) (hDepth : ∀ dir ∈ dirs, dir.depth = depth) :
    walk fuel fs start options =
      some (if dirs.length = 1 then .ok dirs else .error (.depthConflict depth (dirs.map TaggedDir.path))) := by
  obtain ⟨more, rfl⟩ := Nat.exists_eq_add_of_lt hFuel
  have hRun : Walk.run fs options (more + 1 + (Walk.levelsAbove fs options start (depth + 1)).length)
      (Walk.start start) = some (.ok dirs) := by
    have hVisits := Search.visits_levels (Walk.children fs options start) [] (depth + 1)
    refine (Walk.run_of_visits hVisits hVisitable fun chain hChain dir hDir => ?_).trans ?_
    · rw [List.nil_append, ← Walk.levelsAbove, ← hDirs] at hDir
      rw [hDepth dir hDir]
      exact Nat.le_of_lt_succ (Walk.mem_levelsAbove_iff.mp hChain).2
    · -- The next level is in the queue, and every directory of it is deeper than the first one found.
      rw [List.nil_append, ← Walk.levelsAbove, ← hDirs]
      obtain ⟨first, rest, rfl⟩ := List.exists_cons_of_ne_nil hFound
      apply Walk.run_of_deeper hOne
      intro chain hChain
      rw [hDepth first (.head rest), Walk.length_of_mem_level hChain]
      exact Nat.lt_succ_self depth
  rw [walk, Nat.add_assoc, Nat.add_comm _ (more + 1), hRun]
  obtain ⟨first, rest, rfl⟩ := List.exists_cons_of_ne_nil hFound
  have hFirst := hDepth first (.head rest)
  cases rest with
  | nil => rfl
  | cons second rest => simp [Walk.conflict, hOne, hFirst]

theorem run_of_visits_nil {order : List (List Text)} (hFuel : order.length ≤ fuel)
    (hVisits : Search.Visits (Walk.children fs options start) [[]] order [])
    (hVisitable : ∀ chain ∈ order, Walk.Visitable fs options start chain)
    (hNone : order.filterMap (Walk.taggedDir fs options start) = []) :
    Walk.run fs options fuel (Walk.start start) = some (.ok []) := by
  obtain ⟨more, rfl⟩ := Nat.exists_eq_add_of_le' hFuel
  refine (Walk.run_of_visits hVisits hVisitable fun _ _ dir hDir => ?_).trans ?_
  · rw [hNone] at hDir
    cases hDir
  · rw [hNone]
    exact Walk.run_nil more []

theorem walk_of_walk_nil (h : walk fuel fs start { options with multiPackage := true } = some (.ok [])) :
    walk fuel fs start { options with multiPackage := false } = some (.ok []) := by
  obtain ⟨order, hVisits, hVisitable, hLength, hNone⟩ := exists_visits_of_walk rfl h
  rw [Walk.children_set] at hVisits
  rw [Walk.visitable_set] at hVisitable
  rw [Walk.taggedDir_set] at hNone
  have hRun : Walk.run fs { options with multiPackage := false } fuel (Walk.start start) = some (.ok []) := by
    apply run_of_visits_nil hLength
    · rwa [Walk.children_set]
    · rwa [Walk.visitable_set]
    · rw [Walk.taggedDir_set, hNone]
  rw [walk, hRun]
  rfl

end

/-- A walk for one package ends with the first level that has a tagged directory: it gives what a walk for
several packages finds there in the tree without all deeper levels, whatever these are, if it is one, and
reports all of them otherwise. Where a walk for several packages finds nothing, neither does this. -/
theorem walk_closestLevel (fs : FileSystem) (start : Path) (options : WalkOptions) :
    (∀ (depth fuel : Nat) (dirs : List TaggedDir),
      walk fuel (Walk.cutBelow fs options start depth) start { options with multiPackage := true } =
        some (.ok dirs) → dirs ≠ [] → (∀ dir ∈ dirs, dir.depth = depth) → ∀ fuel' > fuel,
      walk fuel' fs start { options with multiPackage := false } =
        some (if dirs.length = 1 then .ok dirs else .error (.depthConflict depth (dirs.map TaggedDir.path)))) ∧
    ∀ fuel, walk fuel fs start { options with multiPackage := true } = some (.ok []) →
      walk fuel fs start { options with multiPackage := false } = some (.ok []) := by
  constructor
  · intro depth fuel dirs hCut hFound hDepth fuel' hFuel
    obtain ⟨hVisitable, hLength, hDirs⟩ := levelsAbove_of_walk_cutBelow hCut hDepth
    refine walk_of_levelsAbove rfl (Nat.lt_of_le_of_lt hLength hFuel) ?_ ?_ hFound hDepth <;>
      rw [Walk.levelsAbove_set]
    · rwa [Walk.visitable_set]
    · rwa [Walk.taggedDir_set]
  · exact fun fuel h => walk_of_walk_nil h

/-- The packages with one inside that cannot be read. -/
def lockedFileSystem : FileSystem where
  entries dir :=
    if dir == "proj/a/deep".toList then .error ⟨.resourceBusy, "locked".toList⟩ else nestedFiles.entries dir
  bytes := nestedFiles.bytes

def emptyProject : MemoryFiles := MemoryFiles.empty.addDir "proj".toList

theorem walk_cutBelow_lockedFileSystem :
    walk 3 (Walk.cutBelow lockedFileSystem nestedOptions "proj".toList 1) "proj".toList
        { nestedOptions with multiPackage := true } =
      some (.ok [nestedDir "proj/a".toList 1, nestedDir "proj/b".toList 1]) := by
  have hTop : Walk.visit (Walk.cutBelow lockedFileSystem nestedOptions "proj".toList 1) nestedOptions
      "proj".toList = .ok ([], ["proj/a".toList, "proj/b".toList]) :=
    Walk.visit_of_pairwise [⟨"a".toList, .dir⟩, ⟨"b".toList, .dir⟩]
      (by decide +kernel) (by decide) (by decide +kernel) (by decide)
  have hFirst : Walk.visit (Walk.cutBelow lockedFileSystem nestedOptions "proj".toList 1) nestedOptions
      "proj/a".toList = .ok ((nestedDir "proj/a".toList 1).files, []) :=
    Walk.visit_of_pairwise [⟨"tasks.go".toList, .file⟩]
      (by decide +kernel) (by decide) (by decide +kernel) (by decide)
  have hSecond : Walk.visit (Walk.cutBelow lockedFileSystem nestedOptions "proj".toList 1) nestedOptions
      "proj/b".toList = .ok ((nestedDir "proj/b".toList 1).files, []) :=
    Walk.visit_of_pairwise [⟨"tasks.go".toList, .file⟩]
      (by decide +kernel) (by decide) (by decide +kernel) (by decide)
  rw [walk_of_multiPackage rfl]
  have hGoesOn := Walk.isOver_multiPackage (show nestedOptions.multiPackage from rfl)
  show Walk.run _ nestedOptions _ _ = _
  simp only [Walk.start, Walk.run, hGoesOn, hTop, hFirst, hSecond, List.map_cons, List.map_nil,
    List.nil_append, List.cons_append]
  rfl

theorem walk_emptyProject :
    walk 1 emptyProject.fileSystem "proj".toList { nestedOptions with multiPackage := true } = some (.ok []) := by
  have hTop : Walk.visit emptyProject.fileSystem nestedOptions "proj".toList = .ok ([], []) :=
    Walk.visit_of_pairwise [] (by decide +kernel) .nil rfl rfl
  rw [walk_of_multiPackage rfl]
  have hGoesOn := Walk.isOver_multiPackage (show nestedOptions.multiPackage from rfl)
  show Walk.run _ nestedOptions _ _ = _
  simp only [Walk.start, Walk.run, hGoesOn, hTop, List.map_nil, List.nil_append]
  rfl

theorem walk_closestLevel_lockedFileSystem :
    walk 4 lockedFileSystem "proj".toList { nestedOptions with multiPackage := false } =
      some (.error (.depthConflict 1 ["proj/a".toList, "proj/b".toList])) ∧
    walk 1 emptyProject.fileSystem "proj".toList { nestedOptions with multiPackage := false } = some (.ok []) :=
  ⟨(walk_closestLevel lockedFileSystem "proj".toList nestedOptions).1 1 3 _ walk_cutBelow_lockedFileSystem
      (List.cons_ne_nil _ _) (by decide) 4 (by decide),
    (walk_closestLevel emptyProject.fileSystem "proj".toList nestedOptions).2 1 walk_emptyProject⟩

end GoCommands
