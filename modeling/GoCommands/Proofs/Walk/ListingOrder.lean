import GoCommands.Proofs.Walk.MultiPackage
import GoCommands.Proofs.Walk.Observed
import GoCommands.Wrapper.DirectoryScan

/-! # The order of listings

A file system may list a directory in any order. Walks, discoveries and scans sort what they are given, so
where the names in each directory are all different they cannot tell the orders apart.
-/

namespace GoCommands

/-- The files are the same, and each directory has the same entries, which come in any order. -/
structure FileSystem.Reordered (fs fs' : FileSystem) : Prop where
  bytes : ∀ path, fs'.bytes path = fs.bytes path
  entries : ∀ dir,
    (∃ cause, fs.entries dir = .error cause ∧ fs'.entries dir = .error cause) ∨
      ∃ entries entries', fs.entries dir = .ok entries ∧ fs'.entries dir = .ok entries' ∧
        entries.Perm entries' ∧ (entries.map DirEntry.name).Nodup

theorem DirectoryScan.scanEntries_congr {fs fs' : FileSystem} (h : ∀ path, fs'.bytes path = fs.bytes path)
    (dir : Path) (tag : Option Text) (s : DirectoryScan) (entries : List DirEntry) :
    scanEntries fs' dir tag s entries = scanEntries fs dir tag s entries := by
  induction entries generalizing s with
  | nil => rfl
  | cons e rest ih =>
    rw [scanEntries, scanEntries]
    simp only [Walk.readTagged_congr (h _), ih]

namespace FileSystem.Reordered

variable {fs fs' : FileSystem} (h : fs.Reordered fs')
include h

theorem sorted (dir : Path) :
    (∃ cause, fs.entries dir = .error cause ∧ fs'.entries dir = .error cause) ∨
      ∃ entries entries', fs.entries dir = .ok entries ∧ fs'.entries dir = .ok entries' ∧
        sortEntries entries' = sortEntries entries := by
  refine (h.entries dir).imp_right ?_
  rintro ⟨entries, entries', hList, hList', hPerm, hNames⟩
  exact ⟨entries, entries', hList, hList', Text.mergeSort_eq_of_perm DirEntry.name hPerm hNames⟩

theorem visit_eq (options : WalkOptions) (dir : Path) :
    Walk.visit fs' options dir = Walk.visit fs options dir := by
  have hFiles : ∀ entries, Walk.taggedFiles fs' options dir entries = Walk.taggedFiles fs options dir entries :=
    fun _ => Walk.taggedFiles_congr fun _ _ _ => h.bytes _
  rw [Walk.visit, Walk.visit]
  rcases h.sorted dir with ⟨cause, hList, hList'⟩ | ⟨entries, entries', hList, hList', hSorted⟩
  · rw [hList, hList']
  · rw [hList, hList']
    simp only [hSorted, hFiles]

theorem ofDirectory_eq (dir : Path) (tag : Option Text) :
    DirectoryScan.ofDirectory fs' dir tag = DirectoryScan.ofDirectory fs dir tag := by
  rw [DirectoryScan.ofDirectory, DirectoryScan.ofDirectory]
  rcases h.sorted dir with ⟨cause, hList, hList'⟩ | ⟨entries, entries', hList, hList', hSorted⟩
  · rw [hList, hList']
  · rw [hList, hList']
    simp only [hSorted, DirectoryScan.scanEntries_congr h.bytes]

end FileSystem.Reordered

/-- Walks, discoveries and scans of a directory give the same value or fail alike whichever order the
listings have, and a walk that does not end in one order does not end in any. -/
theorem answers_eq_of_reordered {fs fs' : FileSystem} (h : fs.Reordered fs') :
    (∀ fuel start options, walk fuel fs' start options = walk fuel fs start options) ∧
      (∀ fuel options, discover fuel fs' options = discover fuel fs options) ∧
      ∀ dir tag, DirectoryScan.ofDirectory fs' dir tag = DirectoryScan.ofDirectory fs dir tag :=
  ⟨fun fuel start options => walk_congr (h.visit_eq options) fuel start,
    fun fuel options => discover_congr (h.visit_eq options.walk) fuel, h.ofDirectory_eq⟩

def FileSystem.reversed (fs : FileSystem) : FileSystem :=
  { fs with entries := fun dir => (fs.entries dir).map List.reverse }

theorem FileSystem.reordered_reversed {fs : FileSystem} (hNames : ∀ dir, Walk.DistinctNames fs dir) :
    fs.Reordered fs.reversed where
  bytes _ := rfl
  entries dir := by
    cases hList : fs.entries dir with
    | error cause => exact .inl ⟨cause, rfl, congrArg (Except.map List.reverse) hList⟩
    | ok entries =>
      have hReversed : fs.reversed.entries dir = .ok entries.reverse := congrArg (Except.map List.reverse) hList
      exact .inr ⟨entries, entries.reverse, rfl, hReversed, (List.reverse_perm entries).symm,
        hNames dir entries hList⟩

theorem answers_eq_reversed_nestedFiles :
    nestedFiles.fileSystem.Reordered nestedFiles.fileSystem.reversed ∧
      nestedFiles.fileSystem.reversed.entries "proj".toList = .ok [⟨"b".toList, .dir⟩, ⟨"a".toList, .dir⟩] ∧
      walk 4 nestedFiles.fileSystem.reversed "proj".toList nestedOptions =
        some (.ok [nestedDir "proj/a".toList 1, nestedDir "proj/b".toList 1, nestedDir "proj/a/deep".toList 2]) := by
  have hReordered := FileSystem.reordered_reversed distinctNames_nestedFiles
  refine ⟨hReordered, by decide +kernel, ?_⟩
  rw [(answers_eq_of_reordered hReordered).1, walk_nestedFiles]

end GoCommands
