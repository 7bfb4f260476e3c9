import GoCommands.Proofs.FileSystem.Memory
import GoCommands.Proofs.Walk.Run
import Mathlib.Data.List.Nodup

/-! # Walks for several packages

Such a walk finds every directory with tagged files that can be reached, each once and in order.
-/

namespace GoCommands

namespace Walk

/-- The directory at the end of the chain, with its tagged files. -/
structure IsTaggedDir (fs : FileSystem) (options : WalkOptions) (start : Path) (chain : List Text)
    (dir : TaggedDir) : Prop where
  path : dir.path = directoryAt start chain
  depth : dir.depth = chain.length
  files : HoldsFiles fs options dir.path dir.files

variable {fs : FileSystem} {options : WalkOptions} {start : Path} {chain : List Text}

theorem isTaggedDir_of_taggedDir (hNames : DistinctNames fs (directoryAt start chain)) {dir : TaggedDir}
    (h : taggedDir fs options start chain = some dir) : IsTaggedDir fs options start chain dir := by
  obtain ⟨hPath, hDepth, -, dirs, hVisit⟩ := (taggedDir_eq_some_iff fs options).mp h
  rw [← hPath] at hNames
  exact ⟨hPath, hDepth, holdsFiles_of_visit hNames hVisit⟩

theorem isSome_taggedDir_iff (hNames : DistinctNames fs (directoryAt start chain))
    (hVisitable : Visitable fs options start chain) :
    (taggedDir fs options start chain).isSome ↔ ∃ name, IsTagged fs options (directoryAt start chain) name := by
  obtain ⟨⟨files, dirs⟩, hVisit⟩ := hVisitable
  rw [← (holdsFiles_of_visit hNames hVisit).ne_nil_iff, taggedDir, hVisit]
  cases files <;> simp

theorem nodup_components {chains : List (List Text)} {dirs : List TaggedDir}
    (h : List.Forall₂ (IsTaggedDir fs options start) chains dirs) (hNodup : chains.Nodup)
    (hNames : ∀ chain ∈ chains, ∀ name ∈ chain, Path.IsName name) :
    (dirs.map fun dir => dir.path.components).Nodup := by
  have hPaths : (dirs.map fun dir => dir.path.components) =
      chains.map fun chain => (directoryAt start chain).components := by
    clear hNodup hNames
    induction h with
    | nil => rfl
    | cons hDir _ ih => rw [List.map_cons, List.map_cons, hDir.path, ih]
  rw [hPaths]
  apply List.Nodup.map_on _ hNodup
  intro a ha b hb
  exact (components_directoryAt_inj (hNames a ha) (hNames b hb)).mp

end Walk

/-- A walk for several packages that succeeds finds the directories with tagged files that chains of listed
directories lead to, by depth and within a depth by the names of the chain. Where directories are listed
under names, the paths are all different. -/
theorem walk_multiPackage_exact {fuel : Nat} {fs : FileSystem} {start : Path} {options : WalkOptions}
    {dirs : List TaggedDir} (hMulti : options.multiPackage)
    (hWalk : walk fuel fs start options = some (.ok dirs))
    (hNames : ∀ chain, Walk.Reaches fs options start chain →
      Walk.DistinctNames fs (Walk.directoryAt start chain)) :
    ∃ chains : List (List Text), chains.Pairwise (List.Shortlex (· < ·)) ∧
      (∀ chain, chain ∈ chains ↔ Walk.Reaches fs options start chain ∧
        ∃ name, Walk.IsTagged fs options (Walk.directoryAt start chain) name) ∧
      List.Forall₂ (Walk.IsTaggedDir fs options start) chains dirs ∧
      ((∀ chain ∈ chains, ∀ name ∈ chain, Path.IsName name) →
        (dirs.map fun dir => dir.path.components).Nodup) := by
  obtain ⟨order, hVisits, hVisitable, -, rfl⟩ := exists_visits_of_walk hMulti hWalk
  have hReaches := Walk.mem_iff_reaches hVisits
  have hSorted := Walk.pairwise_shortlex hVisits hNames
  have hFound : List.Forall₂ (Walk.IsTaggedDir fs options start)
      (order.filter fun chain => (Walk.taggedDir fs options start chain).isSome)
      (order.filterMap (Walk.taggedDir fs options start)) := by
    apply Walk.forall₂_filterMap
    intro chain hChain dir hDir
    exact Walk.isTaggedDir_of_taggedDir (hNames chain ((hReaches chain).mp hChain)) hDir
  refine ⟨_, hSorted.filter _, fun chain => ?_, hFound, Walk.nodup_components hFound ?_⟩
  · rw [List.mem_filter, ← hReaches]
    apply and_congr_right
    intro hChain
    exact Walk.isSome_taggedDir_iff (hNames chain ((hReaches chain).mp hChain)) (hVisitable chain hChain)
  · have hNodup : order.Nodup := hSorted.nodup
    exact hNodup.filter _

/-- Two packages side by side and one inside the first. -/
def nestedFiles : MemoryFiles :=
  let source := Utf8.encode "//go:build gantry\n\npackage ops\n".toList
  ((MemoryFiles.empty.addFile "proj/a/tasks.go".toList source).addFile "proj/a/deep/tasks.go".toList source).addFile
    "proj/b/tasks.go".toList source

def nestedOptions : WalkOptions := ⟨"gantry".toList, true, true⟩

def nestedDir (path : Path) (depth : Nat) : TaggedDir :=
  ⟨path, depth, [⟨Path.join path "tasks.go".toList, "//go:build gantry\n\npackage ops\n".toList⟩]⟩

theorem walk_nestedFiles : walk 4 nestedFiles.fileSystem "proj".toList nestedOptions =
    some (.ok [nestedDir "proj/a".toList 1, nestedDir "proj/b".toList 1, nestedDir "proj/a/deep".toList 2]) := by
  have hTop : Walk.visit nestedFiles.fileSystem nestedOptions "proj".toList =
      .ok ([], ["proj/a".toList, "proj/b".toList]) :=
    Walk.visit_of_pairwise [⟨"a".toList, .dir⟩, ⟨"b".toList, .dir⟩]
      (by decide +kernel) (by decide) (by decide +kernel) (by decide)
  have hFirst : Walk.visit nestedFiles.fileSystem nestedOptions "proj/a".toList =
      .ok ((nestedDir "proj/a".toList 1).files, ["proj/a/deep".toList]) :=
    Walk.visit_of_pairwise [⟨"deep".toList, .dir⟩, ⟨"tasks.go".toList, .file⟩]
      (by decide +kernel) (by decide) (by decide +kernel) (by decide)
  have hSecond : Walk.visit nestedFiles.fileSystem nestedOptions "proj/b".toList =
      .ok ((nestedDir "proj/b".toList 1).files, []) :=
    Walk.visit_of_pairwise [⟨"tasks.go".toList, .file⟩]
      (by decide +kernel) (by decide) (by decide +kernel) (by decide)
  have hDeep : Walk.visit nestedFiles.fileSystem nestedOptions "proj/a/deep".toList =
      .ok ((nestedDir "proj/a/deep".toList 2).files, []) :=
    Walk.visit_of_pairwise [⟨"tasks.go".toList, .file⟩]
      (by decide +kernel) (by decide) (by decide +kernel) (by decide)
  rw [walk_of_multiPackage rfl]
  have hGoesOn := Walk.isOver_multiPackage (show nestedOptions.multiPackage from rfl)
  simp only [Walk.start, Walk.run, hGoesOn, hTop, hFirst, hSecond, hDeep, List.map_cons, List.map_nil,
    List.nil_append, List.cons_append]
  rfl

theorem distinctNames_nestedFiles (dir : Path) : Walk.DistinctNames nestedFiles.fileSystem dir := by
  have hStored : ∀ d ∈ nestedFiles.dirs,
      (((nestedFiles.dirs.filter fun e => e.directory == some d).map (MemoryFiles.entryOf .dir) ++
        ((nestedFiles.files.map Prod.fst).filter fun f => f.directory == some d).map
          (MemoryFiles.entryOf .file)).map DirEntry.name).Nodup := by
    decide +kernel
  intro entries hEntries
  obtain ⟨hDir, rfl⟩ := (MemoryFiles.entries_ok_iff nestedFiles dir entries).mp hEntries
  exact hStored _ (List.contains_iff_mem.mp hDir)

theorem walk_multiPackage_exact_nestedFiles : ∃ chains : List (List Text),
    chains.Pairwise (List.Shortlex (· < ·)) ∧
      (∀ chain, chain ∈ chains ↔ Walk.Reaches nestedFiles.fileSystem nestedOptions "proj".toList chain ∧
        ∃ name, Walk.IsTagged nestedFiles.fileSystem nestedOptions
          (Walk.directoryAt "proj".toList chain) name) ∧
      List.Forall₂ (Walk.IsTaggedDir nestedFiles.fileSystem nestedOptions "proj".toList) chains
        [nestedDir "proj/a".toList 1, nestedDir "proj/b".toList 1, nestedDir "proj/a/deep".toList 2] ∧
      ((∀ chain ∈ chains, ∀ name ∈ chain, Path.IsName name) →
        ([nestedDir "proj/a".toList 1, nestedDir "proj/b".toList 1, nestedDir "proj/a/deep".toList 2].map
          fun dir => dir.path.components).Nodup) :=
  walk_multiPackage_exact rfl walk_nestedFiles fun _ _ => distinctNames_nestedFiles _

end GoCommands
