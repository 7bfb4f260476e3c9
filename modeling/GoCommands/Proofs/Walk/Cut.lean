import GoCommands.Proofs.Walk.Run

/-! # Trees cut off below a depth

The cut tree has the same directories down to the depth and none below it. A visit finds the same files in
both trees.
-/

namespace GoCommands.Walk

/-- The chains of all levels above a depth. -/
def levelsAbove (fs : FileSystem) (options : WalkOptions) (start : Path) (depth : Nat) : List (List Text) :=
  (List.range depth).flatMap (Search.level (children fs options start) [])

def pathsAbove (fs : FileSystem) (options : WalkOptions) (start : Path) (depth : Nat) : List Path :=
  (levelsAbove fs options start depth).map (directoryAt start)

/-- The file system without directories deeper than the depth: only directories above it list others. -/
def cutBelow (fs : FileSystem) (options : WalkOptions) (start : Path) (depth : Nat) : FileSystem where
  entries dir :=
    if (pathsAbove fs options start depth).contains dir then fs.entries dir
    else (fs.entries dir).map fun entries => entries.filter fun e => e.kind != .dir
  bytes := fs.bytes

variable {fs : FileSystem} {options : WalkOptions} {start : Path} {depth : Nat}

theorem length_of_mem_level {n : Nat} {chain : List Text}
    (h : chain ∈ Search.level (children fs options start) [] n) : chain.length = n := by
  induction n generalizing chain with
  | zero => rw [List.mem_singleton.mp h]; rfl
  | succ n ih =>
    obtain ⟨shorter, hShorter, hChain⟩ := List.mem_flatMap.mp h
    rw [length_of_mem_children fs options start hChain, ih hShorter]

theorem mem_level_iff {n : Nat} {chain : List Text} :
    chain ∈ Search.level (children fs options start) [] n ↔
      Reaches fs options start chain ∧ chain.length = n := by
  constructor
  · intro h
    refine ⟨?_, length_of_mem_level h⟩
    induction n generalizing chain with
    | zero => rw [List.mem_singleton.mp h]; exact .here
    | succ n ih =>
      obtain ⟨shorter, hShorter, hChain⟩ := List.mem_flatMap.mp h
      exact (ih hShorter).of_mem_children hChain
  · rintro ⟨hReaches, rfl⟩
    induction hReaches with
    | here => exact List.mem_singleton.mpr rfl
    | descend _ hEntries hMem hDescends ih =>
      rw [List.length_append]
      refine List.mem_flatMap.mpr ⟨_, ih, ?_⟩
      exact (mem_children_iff fs options start).mpr ⟨_, _, rfl, hEntries, hMem, hDescends⟩

theorem mem_levelsAbove_iff {chain : List Text} :
    chain ∈ levelsAbove fs options start depth ↔ Reaches fs options start chain ∧ chain.length < depth := by
  simp only [levelsAbove, List.mem_flatMap, List.mem_range, mem_level_iff]
  constructor
  · rintro ⟨n, hn, hReaches, rfl⟩
    exact ⟨hReaches, hn⟩
  · rintro ⟨hReaches, hLength⟩
    exact ⟨_, hLength, hReaches, rfl⟩

/-- A complete search takes the levels down to a depth and then longer chains. -/
theorem exists_longer_of_visits {order : List (List Text)}
    (h : Search.Visits (children fs options start) [[]] order []) (depth : Nat) :
    ∃ deep, order = levelsAbove fs options start (depth + 1) ++ deep ∧ ∀ chain ∈ deep, depth < chain.length := by
  obtain ⟨deep, hOrder, hDeep⟩ :=
    (Search.visits_levels (children fs options start) [] (depth + 1)).exists_eq_append h
  refine ⟨deep, hOrder, (hDeep.forall_mem (fun chain hChain => ?_) fun chain hChain longer hChild => ?_).1⟩
  · rw [length_of_mem_level hChain]
    exact Nat.lt_succ_self depth
  · rw [length_of_mem_children _ _ _ hChild]
    exact Nat.lt_succ_of_lt hChain

theorem filterMap_taggedDir_eq_nil {chains : List (List Text)} (hLonger : ∀ chain ∈ chains, depth < chain.length)
    (hDepth : ∀ dir ∈ chains.filterMap (taggedDir fs options start), dir.depth = depth) :
    chains.filterMap (taggedDir fs options start) = [] := by
  rw [List.eq_nil_iff_forall_not_mem]
  intro dir hDir
  obtain ⟨chain, hChain, hTagged⟩ := List.mem_filterMap.mp hDir
  have hLt := hLonger chain hChain
  rw [← ((taggedDir_eq_some_iff fs options).mp hTagged).2.1, hDepth dir hDir] at hLt
  exact Nat.lt_irrefl depth hLt

theorem mem_pathsAbove_iff {dir : Path} : dir ∈ pathsAbove fs options start depth ↔
    ∃ chain, (Reaches fs options start chain ∧ chain.length < depth) ∧ directoryAt start chain = dir := by
  simp only [pathsAbove, List.mem_map, mem_levelsAbove_iff]

theorem entries_cutBelow_of_above {chain : List Text} (hReaches : Reaches fs options start chain)
    (hLength : chain.length < depth) :
    (cutBelow fs options start depth).entries (directoryAt start chain) =
      fs.entries (directoryAt start chain) :=
  if_pos (List.contains_iff_mem.mpr (mem_pathsAbove_iff.mpr ⟨chain, ⟨hReaches, hLength⟩, rfl⟩))

theorem entries_cutBelow_of_not_above {dir : Path} {entries : List DirEntry}
    (hDir : dir ∉ pathsAbove fs options start depth)
    (h : (cutBelow fs options start depth).entries dir = .ok entries) :
    ∃ all, fs.entries dir = .ok all ∧ entries = all.filter fun e => e.kind != .dir := by
  simp only [cutBelow, List.contains_iff_mem, if_neg hDir] at h
  cases hAll : fs.entries dir with
  | error cause => rw [hAll] at h; cases h
  | ok all =>
    rw [hAll] at h
    exact ⟨all, rfl, (Except.ok.inj h).symm⟩

section

variable (hNames : ∀ chain, Reaches fs options start chain → ∀ name ∈ chain, Path.IsName name)
include hNames

theorem not_mem_pathsAbove {chain : List Text} (h : Reaches fs options start chain) :
    directoryAt start chain ∉ pathsAbove fs options start chain.length := by
  intro hAbove
  obtain ⟨shorter, ⟨hReaches, hShorter⟩, hSame⟩ := mem_pathsAbove_iff.mp hAbove
  -- A path does not say how deep it is, but the number of its components does.
  have hComponents := congrArg Path.components hSame
  rw [components_directoryAt_inj (hNames shorter hReaches) (hNames chain h)] at hComponents
  exact absurd (congrArg List.length hComponents) (Nat.ne_of_lt hShorter)

/-- Where directories are listed under names, the cut leaves exactly those down to the depth. -/
theorem reaches_cutBelow_iff (chain : List Text) :
    Reaches (cutBelow fs options start depth) options start chain ↔
      Reaches fs options start chain ∧ chain.length ≤ depth := by
  constructor
  · intro h
    induction h with
    | here => exact ⟨.here, Nat.zero_le depth⟩
    | descend _ hEntries hMem hDescends ih =>
      obtain ⟨hReaches, hLength⟩ := ih
      rcases Nat.lt_or_eq_of_le hLength with hLt | rfl
      · rw [entries_cutBelow_of_above hReaches hLt] at hEntries
        refine ⟨.descend hReaches hEntries hMem hDescends, ?_⟩
        rw [List.length_append]
        exact hLt
      · obtain ⟨all, -, rfl⟩ := entries_cutBelow_of_not_above (not_mem_pathsAbove hNames hReaches) hEntries
        simp at hMem
  · rintro ⟨hReaches, hLength⟩
    induction hReaches with
    | here => exact .here
    | descend hReaches hEntries hMem hDescends ih =>
      rw [List.length_append] at hLength
      rw [← entries_cutBelow_of_above hReaches hLength] at hEntries
      exact .descend (ih (Nat.le_of_succ_le hLength)) hEntries hMem hDescends

end

theorem level_cutBelow {n : Nat} (h : n ≤ depth) :
    Search.level (children (cutBelow fs options start depth) options start) [] n =
      Search.level (children fs options start) [] n := by
  induction n with
  | zero => rfl
  | succ n ih =>
    rw [Search.level, Search.level, ih (Nat.le_of_succ_le h)]
    apply List.flatMap_congr
    intro chain hChain
    obtain ⟨hReaches, rfl⟩ := mem_level_iff.mp hChain
    rw [children, children, entries_cutBelow_of_above hReaches h]

theorem taggedFiles_cutBelow (dir : Path) (entries : List DirEntry) :
    taggedFiles (cutBelow fs options start depth) options dir entries = taggedFiles fs options dir entries := by
  induction entries with
  | nil => rfl
  | cons e rest ih =>
    rw [taggedFiles, taggedFiles, ih]
    rfl

theorem levelsAbove_cutBelow : levelsAbove (cutBelow fs options start depth) options start (depth + 1) =
    levelsAbove fs options start (depth + 1) := by
  apply List.flatMap_congr
  intro n hn
  exact level_cutBelow (Nat.le_of_lt_succ (List.mem_range.mp hn))

theorem taggedFiles_filter (dir : Path) (entries : List DirEntry) :
    taggedFiles fs options dir (entries.filter fun e => e.kind != .dir) = taggedFiles fs options dir entries := by
  induction entries with
  | nil => rfl
  | cons e rest ih =>
    by_cases hKind : e.kind = .dir
    · have hOther : mayBeTagged options e = false := by simp [mayBeTagged, hKind]
      rw [List.filter_cons_of_neg (by simp [hKind]), ih, taggedFiles, hOther]
      rfl
    · rw [List.filter_cons_of_pos (by simpa using hKind), taggedFiles, taggedFiles, ih]

theorem visit_of_visit_cutBelow {dir : Path} {files : List TaggedFile} {dirs : List Path}
    (h : visit (cutBelow fs options start depth) options dir = .ok (files, dirs)) :
    ∃ dirs', visit fs options dir = .ok (files, dirs') := by
  obtain ⟨entries, hEntries, hFiles, -⟩ := visit_eq_ok_iff.mp h
  rw [taggedFiles_cutBelow] at hFiles
  by_cases hAbove : dir ∈ pathsAbove fs options start depth
  · simp only [cutBelow, List.contains_iff_mem, if_pos hAbove] at hEntries
    exact ⟨_, visit_eq_ok_iff.mpr ⟨entries, hEntries, hFiles, rfl⟩⟩
  · obtain ⟨all, hAll, rfl⟩ := entries_cutBelow_of_not_above hAbove hEntries
    -- The directories can be left out after the sorting as well, where they give no file.
    rw [sortEntries, ← Text.filter_mergeSort, taggedFiles_filter] at hFiles
    exact ⟨_, visit_eq_ok_iff.mpr ⟨all, hAll, hFiles, rfl⟩⟩

section

variable {chain : List Text} (h : Visitable (cutBelow fs options start depth) options start chain)
include h

theorem Visitable.of_cutBelow : Visitable fs options start chain := by
  obtain ⟨⟨files, dirs⟩, hVisit⟩ := h
  obtain ⟨dirs', hVisit'⟩ := visit_of_visit_cutBelow hVisit
  exact ⟨_, hVisit'⟩

theorem taggedDir_cutBelow :
    taggedDir (cutBelow fs options start depth) options start chain = taggedDir fs options start chain := by
  obtain ⟨⟨files, dirs⟩, hVisit⟩ := h
  obtain ⟨dirs', hVisit'⟩ := visit_of_visit_cutBelow hVisit
  rw [taggedDir, taggedDir, hVisit, hVisit']

end

end GoCommands.Walk
