import GoCommands.Proofs.FileSystem.Stored
import GoCommands.Proofs.Walk.ClosestLevel
import Mathlib.Data.Finset.Dedup
import Mathlib.Data.Finset.Order

/-! # Walks that end

A directory that lists itself keeps a walk in it: the walk ends only where it fails or, for one package,
below a tagged directory. Every other walk of files in memory runs out of directories.
-/

namespace GoCommands

namespace Walk

section

variable {fs : FileSystem} {options : WalkOptions} {start : Path} {fuel : Nat} {found : List TaggedDir}
  {queue order rest : List (List Text)}

theorem isSome_run_of_not_visitable {chain : List Text} (h : ¬ Visitable fs options start chain) (fuel : Nat)
    (queue : List (List Text)) (found : List TaggedDir) :
    (run fs options (fuel + 1) ⟨queueOf start (chain :: queue), found⟩).isSome := by
  rw [queueOf, List.map_cons, run]
  split
  · rfl
  · cases hVisit : visit fs options (directoryAt start chain) with
    | error cause => rfl
    | ok result => exact absurd ⟨result, hVisit⟩ h

/-- A run ends if it would end behind a search, since on the way it can only end earlier. -/
theorem isSome_run_of_visits (h : Search.Visits (children fs options start) queue order rest)
    (hRest : (run fs options fuel
      ⟨queueOf start rest, found ++ order.filterMap (taggedDir fs options start)⟩).isSome) :
    (run fs options (fuel + order.length) ⟨queueOf start queue, found⟩).isSome := by
  induction h generalizing found with
  | done queue => rwa [List.filterMap_nil, List.append_nil] at hRest
  | @next chain queue order rest h ih =>
    rw [append_filterMap_taggedDir] at hRest
    rw [List.length_cons, ← Nat.add_assoc]
    by_cases hVisitable : Visitable fs options start chain
    · cases hOver : isOver options ⟨queueOf start queue, found⟩ chain.length with
      | false =>
        rw [run_cons_of_visitable hVisitable hOver]
        exact ih hRest
      | true =>
        rw [queueOf, List.map_cons, run, ← queueOf, if_pos hOver]
        rfl
    · exact isSome_run_of_not_visitable hVisitable ..

theorem exists_isSome_run_of_not_visitable {chain : List Text} (hReaches : Reaches fs options start chain)
    (hVisitable : ¬ Visitable fs options start chain) :
    ∃ fuel, (run fs options fuel ⟨queueOf start [[]], []⟩).isSome := by
  obtain ⟨before, behind, hLevel⟩ := List.append_of_mem (mem_level_iff.mpr ⟨hReaches, rfl⟩)
  have hAbove := Search.visits_levels (children fs options start) [] chain.length
  have hBefore := Search.visits_queue (children fs options start) before (chain :: behind)
  rw [← hLevel] at hBefore
  have hEnd := isSome_run_of_not_visitable hVisitable 0 (behind ++ before.flatMap (children fs options start))
  exact ⟨_, isSome_run_of_visits (hAbove.append hBefore) (hEnd _)⟩

theorem exists_isSome_run_of_taggedDir (hOne : options.multiPackage = false) {chain : List Text}
    (hReaches : Reaches fs options start chain) (hTagged : (taggedDir fs options start chain).isSome) :
    ∃ fuel, (run fs options fuel ⟨queueOf start [[]], []⟩).isSome := by
  obtain ⟨dir, hDir⟩ := Option.isSome_iff_exists.mp hTagged
  have hMem : dir ∈ (levelsAbove fs options start (chain.length + 1)).filterMap (taggedDir fs options start) :=
    List.mem_filterMap.mpr ⟨chain, mem_levelsAbove_iff.mpr ⟨hReaches, Nat.lt_succ_self _⟩, hDir⟩
  obtain ⟨first, more, hFound⟩ := List.exists_cons_of_ne_nil (List.ne_nil_of_mem hMem)
  have hDepth : first.depth < chain.length + 1 := by
    have hFirst : first ∈ (levelsAbove fs options start (chain.length + 1)).filterMap
        (taggedDir fs options start) := by
      rw [hFound]
      exact .head more
    obtain ⟨shorter, hShorter, hTagged⟩ := List.mem_filterMap.mp hFirst
    rw [((taggedDir_eq_some_iff fs options).mp hTagged).2.1]
    exact (mem_levelsAbove_iff.mp hShorter).2
  have hEnd : (run fs options 1 ⟨queueOf start (Search.level (children fs options start) [] (chain.length + 1)),
      [] ++ (levelsAbove fs options start (chain.length + 1)).filterMap (taggedDir fs options start)⟩).isSome := by
    rw [List.nil_append, hFound, run_of_deeper hOne]
    · rfl
    · intro longer hLonger
      rwa [length_of_mem_level hLonger]
  exact ⟨_, isSome_run_of_visits (Search.visits_levels (children fs options start) [] (chain.length + 1)) hEnd⟩

/-- Where no chain is longer than a bound, the walk runs out of directories. -/
theorem exists_isSome_run_of_bound {bound : Nat}
    (hBound : ∀ chain, Reaches fs options start chain → chain.length ≤ bound) :
    ∃ fuel, (run fs options fuel ⟨queueOf start [[]], []⟩).isSome := by
  have hLevel : Search.level (children fs options start) [] (bound + 1) = [] := by
    rw [List.eq_nil_iff_forall_not_mem]
    intro chain hChain
    obtain ⟨hReaches, hLength⟩ := mem_level_iff.mp hChain
    have hLe := hBound chain hReaches
    omega
  have hVisits := Search.visits_levels (children fs options start) [] (bound + 1)
  rw [hLevel] at hVisits
  have hEnd : ∀ found, (run fs options 0 ⟨queueOf start [], found⟩).isSome := fun _ => rfl
  exact ⟨_, isSome_run_of_visits hVisits (hEnd _)⟩

/-- Chains of which each has a child of their kind keep the queue from running empty. -/
theorem run_eq_none (Endless : List Text → Prop)
    (hEndless : ∀ chain, Reaches fs options start chain → Endless chain →
      ∃ longer ∈ children fs options start chain, Endless longer)
    (hVisitable : ∀ chain, Reaches fs options start chain → Visitable fs options start chain)
    (hGoesOn : options.multiPackage ∨
      ∀ chain, Reaches fs options start chain → taggedDir fs options start chain = none)
    (hReaches : ∀ chain ∈ queue, Reaches fs options start chain) (hQueue : ∃ chain ∈ queue, Endless chain)
    (hFound : options.multiPackage ∨ found = []) (fuel : Nat) :
    run fs options fuel ⟨queueOf start queue, found⟩ = none := by
  induction fuel generalizing queue found with
  | zero =>
    obtain ⟨chain, hChain, -⟩ := hQueue
    cases queue with
    | nil => cases hChain
    | cons chain queue => rfl
  | succ fuel ih =>
    obtain ⟨chain, hChain, hKind⟩ := hQueue
    cases queue with
    | nil => cases hChain
    | cons first queue =>
      obtain ⟨hFirst, hReaches⟩ := List.forall_mem_cons.mp hReaches
      have hOver : isOver options ⟨queueOf start queue, found⟩ first.length = false := by
        rcases hFound with hMulti | rfl
        · exact isOver_multiPackage hMulti ..
        · exact Bool.and_false _
      rw [run_cons_of_visitable (hVisitable first hFirst) hOver]
      apply ih
      · intro longer hLonger
        rcases List.mem_append.mp hLonger with hOld | hNew
        · exact hReaches longer hOld
        · exact hFirst.of_mem_children hNew
      · rcases List.mem_cons.mp hChain with rfl | hBehind
        · obtain ⟨longer, hLonger, hKind⟩ := hEndless chain hFirst hKind
          exact ⟨longer, List.mem_append_right _ hLonger, hKind⟩
        · exact ⟨chain, List.mem_append_left _ hBehind, hKind⟩
      · rcases hGoesOn with hMulti | hNone
        · exact .inl hMulti
        · refine hFound.imp_right ?_
          rintro rfl
          rw [hNone first hFirst]
          rfl

end

section

variable {s : MemoryFiles} {options : WalkOptions} {start : Path} {chain : List Text}

theorem Reaches.names_or_nil (hBuilt : s.Built) (hAbove : ¬ s.StoresAbove start)
    (h : Reaches s.fileSystem options start chain) : (∀ name ∈ chain, Path.IsName name) ∧
      (chain = [] ∨ (directoryAt start chain).normalize ∈ s.dirs ∧ ¬ s.StoresAbove (directoryAt start chain)) := by
  induction h with
  | here => exact ⟨List.forall_mem_nil _, .inl rfl⟩
  | @descend chain name entries _ hEntries hMem _ ih =>
    obtain ⟨hNames, hStored⟩ := ih
    have hNot : ¬ s.StoresAbove (directoryAt start chain) := by
      rcases hStored with rfl | ⟨-, hNot⟩
      · exact hAbove
      · exact hNot
    rcases hBuilt.subdirectory hEntries hMem with ⟨hName, hDir⟩ | ⟨-, hHere⟩
    · rw [directoryAt_concat]
      refine ⟨?_, .inr ⟨hDir, MemoryFiles.not_storesAbove_join s _ hName⟩⟩
      rw [List.forall_mem_append]
      exact ⟨hNames, List.forall_mem_singleton.mpr hName⟩
    · exact absurd hHere hNot

theorem names_location_directoryAt (hNames : ∀ name ∈ chain, Path.IsName name) :
    (directoryAt start chain).location.names = start.location.names ++ chain := by
  induction chain generalizing start with
  | nil => exact (List.append_nil _).symm
  | cons name chain ih =>
    obtain ⟨hName, hNames⟩ := List.forall_mem_cons.mp hNames
    have hStep : (Path.join start name).location.names = start.location.names ++ [name] := by
      rw [Path.location_join start hName]
      rfl
    have hRest := @ih (Path.join start name) hNames
    rw [hStep, List.append_assoc] at hRest
    exact hRest

/-- A chain leads to a stored directory, so it is not longer than the longest of these. -/
theorem exists_length_le (hBuilt : s.Built) (hAbove : ¬ s.StoresAbove start) :
    ∃ bound, ∀ chain, Reaches s.fileSystem options start chain → chain.length ≤ bound := by
  obtain ⟨bound, hBound⟩ := (s.dirs.map fun d => d.location.names.length).toFinset.exists_le
  refine ⟨bound, fun chain h => ?_⟩
  obtain ⟨hNames, rfl | ⟨hStored, -⟩⟩ := h.names_or_nil hBuilt hAbove
  · exact Nat.zero_le _
  · have hSteps : (directoryAt start chain).normalize.location.names.length =
        start.location.names.length + chain.length := by
      rw [Path.location_normalize, names_location_directoryAt hNames, List.length_append]
    have hLe := hBound _ (List.mem_toFinset.mpr (List.mem_map_of_mem hStored))
    omega

theorem Reaches.isDir (hBuilt : s.Built) (hStart : s.isDir start.normalize)
    (h : Reaches s.fileSystem options start chain) : s.isDir (directoryAt start chain).normalize := by
  induction h with
  | here => exact hStart
  | @descend chain name entries _ hEntries hMem _ ih =>
    rw [directoryAt_concat]
    rcases hBuilt.subdirectory hEntries hMem with ⟨-, hDir⟩ | ⟨rfl, -⟩
    · exact List.contains_iff_mem.mpr hDir
    · rwa [Path.normalize_join_nil]

theorem exists_visit_of_no_files (hFiles : s.files = []) {dir : Path} (hDir : s.isDir dir.normalize) :
    ∃ dirs, visit s.fileSystem options dir = .ok ([], dirs) := by
  obtain ⟨entries, hEntries⟩ : ∃ entries, s.entries dir = .ok entries :=
    ⟨_, (MemoryFiles.entries_ok_iff s dir _).mpr ⟨hDir, rfl⟩⟩
  have hNotTagged : ∀ e ∈ sortEntries entries, mayBeTagged options e = false := by
    intro e he
    rw [mem_sortEntries, ((MemoryFiles.entries_ok_iff s dir entries).mp hEntries).2, hFiles] at he
    rcases List.mem_append.mp he with he | he
    · obtain ⟨d, -, rfl⟩ := List.mem_map.mp he
      rfl
    · cases he
  refine ⟨_, visit_eq_ok_iff.mpr ⟨entries, hEntries, taggedFiles_eq_ok_iff.mpr ⟨?_, ?_⟩, rfl⟩⟩
  · intro e he hTagged
    rw [hNotTagged e he] at hTagged
    cases hTagged
  · rw [List.filterMap_eq_nil_iff]
    intro e he
    rw [taggedFile, hNotTagged e he]
    rfl

theorem exists_endless_child (hAbove : s.StoresAbove (directoryAt start chain))
    (hVisitable : Visitable s.fileSystem options start chain) :
    ∃ longer ∈ children s.fileSystem options start chain, s.StoresAbove (directoryAt start longer) := by
  obtain ⟨⟨files, dirs⟩, hVisit⟩ := hVisitable
  obtain ⟨entries, hEntries, -⟩ := visit_eq_ok_iff.mp hVisit
  refine ⟨chain ++ [[]], ?_, ?_⟩
  · refine (mem_children_iff _ _ _).mpr ⟨[], entries, rfl, hEntries, hAbove.mem_entries hEntries, ?_⟩
    rw [descends]
    exact Bool.and_false _ ▸ rfl
  · rwa [directoryAt_concat, MemoryFiles.storesAbove_join_nil]

end

end Walk

section

variable {s : MemoryFiles} {start : Path} {options : WalkOptions}

/-- A walk that starts where `..` is stored without a name does not come to an end by itself. -/
theorem walk_eq_none_of_storesAbove (hAbove : s.StoresAbove start)
    (hVisitable : ∀ chain, Walk.Reaches s.fileSystem options start chain →
      Walk.Visitable s.fileSystem options start chain)
    (hGoesOn : options.multiPackage ∨ ∀ chain, Walk.Reaches s.fileSystem options start chain →
      Walk.taggedDir s.fileSystem options start chain = none) (fuel : Nat) :
    walk fuel (FileStore.view s) start options = none := by
  rw [walk, Option.map_eq_none_iff]
  show Walk.run s.fileSystem options fuel ⟨Walk.queueOf start [[]], []⟩ = none
  apply Walk.run_eq_none fun chain => s.StoresAbove (Walk.directoryAt start chain)
  · exact fun chain hReaches hHere => Walk.exists_endless_child hHere (hVisitable chain hReaches)
  · exact hVisitable
  · exact hGoesOn
  · intro chain hChain
    rw [List.mem_singleton.mp hChain]
    exact .here
  · exact ⟨[], .head _, hAbove⟩
  · exact .inr rfl

/-- Without files nothing else ends it. -/
theorem walk_eq_none_of_no_files (hBuilt : s.Built) (hFiles : s.files = []) (hStart : s.isDir start.normalize)
    (hAbove : s.StoresAbove start) (fuel : Nat) : walk fuel (FileStore.view s) start options = none := by
  have hVisit : ∀ chain, Walk.Reaches s.fileSystem options start chain →
      ∃ dirs, Walk.visit s.fileSystem options (Walk.directoryAt start chain) = .ok ([], dirs) :=
    fun chain hReaches => Walk.exists_visit_of_no_files hFiles (hReaches.isDir hBuilt hStart)
  refine walk_eq_none_of_storesAbove hAbove ?_ (.inr ?_) fuel
  · intro chain hReaches
    obtain ⟨dirs, hDirs⟩ := hVisit chain hReaches
    exact ⟨_, hDirs⟩
  · intro chain hReaches
    obtain ⟨dirs, hDirs⟩ := hVisit chain hReaches
    rw [Walk.taggedDir, hDirs]
    rfl

end

/-- A walk of files in memory ends exactly if it does not start where `..` is stored without a name, or it
comes to a directory that cannot be visited, or it is a walk for one package that comes to a tagged
directory. -/
theorem walk_ends_iff {s : MemoryFiles} (hBuilt : s.Built) (start : Path) (options : WalkOptions) :
    (∃ fuel, (walk fuel (FileStore.view s) start options).isSome) ↔ ¬ s.StoresAbove start ∨
      (∃ chain, Walk.Reaches (FileStore.view s) options start chain ∧
        ¬ Walk.Visitable (FileStore.view s) options start chain) ∨
      options.multiPackage = false ∧ ∃ chain, Walk.Reaches (FileStore.view s) options start chain ∧
        (Walk.taggedDir (FileStore.view s) options start chain).isSome := by
  constructor
  · rintro ⟨fuel, hEnds⟩
    by_contra hNot
    simp only [not_or, not_and, not_exists, not_not] at hNot
    obtain ⟨hAbove, hVisitable, hTagged⟩ := hNot
    rw [walk_eq_none_of_storesAbove hAbove hVisitable] at hEnds
    · cases hEnds
    · cases hMulti : options.multiPackage with
      | true => exact .inl rfl
      | false => exact .inr fun chain hReaches => Option.not_isSome_iff_eq_none.mp (hTagged hMulti chain hReaches)
  · simp only [walk, Option.isSome_map]
    rintro (hAbove | ⟨chain, hReaches, hVisitable⟩ | ⟨hOne, chain, hReaches, hTagged⟩)
    · obtain ⟨bound, hBound⟩ := Walk.exists_length_le hBuilt hAbove
      exact Walk.exists_isSome_run_of_bound hBound
    · exact Walk.exists_isSome_run_of_not_visitable hReaches hVisitable
    · exact Walk.exists_isSome_run_of_taggedDir hOne hReaches hTagged

/-- A directory beside the working directory. -/
def besideFiles : MemoryFiles := MemoryFiles.empty.addDir "../a".toList

def besideOptions : WalkOptions := ⟨"gantry".toList, false, true⟩

/-- From the working directory no number of visits ends the walk. -/
theorem walk_besideFiles_eq_none : besideFiles.Built ∧
    ∀ fuel, walk fuel (FileStore.view besideFiles) ['.'] besideOptions = none := by
  have hBuilt : besideFiles.Built := .addDir _ .empty
  refine ⟨hBuilt, walk_eq_none_of_no_files hBuilt rfl ?_ (.inl ?_)⟩
  · decide
  · decide

/-- From the directory above, the walk ends. -/
theorem walk_ends_above_besideFiles : besideFiles.Built ∧ ¬ besideFiles.StoresAbove ['.', '.'] ∧
    ∃ fuel, (walk fuel (FileStore.view besideFiles) ['.', '.'] besideOptions).isSome := by
  have hBuilt : besideFiles.Built := .addDir _ .empty
  have hAbove : ¬ besideFiles.StoresAbove ['.', '.'] := by
    rw [MemoryFiles.StoresAbove]
    decide
  exact ⟨hBuilt, hAbove, (walk_ends_iff hBuilt _ _).mpr (.inl hAbove)⟩

end GoCommands
