import GoCommands.Proofs.Fold
import GoCommands.Proofs.FileSystem.Listing
import Mathlib.Logic.Relation

/-! # Directories above what is stored

An addition stores a path with all directories above it, going up from one to the next, and a write goes only into a
directory that is stored. So the directories above a stored path are stored, whatever is added and written and whether
the writes fail or not.
-/

namespace GoCommands

/-- Going from the second path to its directory, once or more often, leads to the first one. -/
def Path.IsAbove (d p : Path) : Prop := Relation.TransGen (fun q parent => q.directory = some parent) p d

namespace Path.Location

theorem length_names_step (l : Location) (n : Text) : (l.step (.name n)).names.length = l.names.length + 1 :=
  List.length_append ..

namespace Resolved

variable {l : Location} (h : l.Resolved)
include h

theorem length_names_le : l.names.length ≤ l.render.length := by
  induction h with
  | top absolute => exact Nat.zero_le _
  | above absolute => cases absolute <;> decide
  | @name before n _ hName ih =>
    have hFront : before.names.length ≤ before.front.length := by
      rw [front]
      split
      · rename_i hTop
        rw [List.isEmpty_iff.mp hTop]
        exact Nat.zero_le _
      · rw [List.length_append]
        omega
    have hNonempty := List.length_pos_of_ne_nil hName.nonempty
    rw [render_step, List.length_append, length_names_step]
    omega

theorem exists_shorter_of_directory {dir : Path} (hDir : directory l.render = some dir) :
    ∃ before : Location, before.Resolved ∧ dir = before.render ∧ l.names.length = before.names.length + 1 := by
  obtain ⟨before, hBefore, hRender, hStep⟩ := h.exists_of_directory hDir
  refine ⟨before, hBefore, hRender, ?_⟩
  rcases hStep with ⟨n, -, rfl⟩ | ⟨absolute, rfl, rfl⟩
  · exact length_names_step before n
  · rfl

theorem normalize_render : normalize l.render = l.render := by
  rw [normalize, h.location_render]

end Resolved

end Path.Location

namespace MemoryFiles

/-- The way up from a path passes all directories above it. -/
theorem mem_ancestors_iff {l : Path.Location} (h : l.Resolved) {fuel : Nat} (hFuel : l.names.length < fuel)
    {d : Path} : d ∈ ancestors fuel l.render ↔ d.IsAbove l.render := by
  induction fuel generalizing l with
  | zero => exact absurd hFuel (Nat.not_lt_zero _)
  | succ fuel ih =>
    rw [ancestors, Path.IsAbove, Relation.TransGen.head'_iff]
    split
    · rename_i hTop
      simp [hTop]
    · rename_i dir hDir
      -- The directory has one name less, so the fuel lasts to the top.
      obtain ⟨before, hBefore, rfl, hLength⟩ := h.exists_shorter_of_directory hDir
      have hAbove := ih hBefore (by omega)
      simp only [hDir, Option.some.injEq, exists_eq_left', List.mem_cons, Relation.reflTransGen_iff_eq_or_transGen]
      exact or_congr_right hAbove

/-- The directory of each stored path is stored. -/
def IsRooted (s : MemoryFiles) : Prop := ∀ p kind, s.Holds p kind → ∀ d ∈ p.directory, d ∈ s.dirs

section

variable {s : MemoryFiles} {p q : Path} {kind : EntryKind}

theorem holds_addDirectory : (s.addDirectory p).Holds q kind ↔ s.Holds q kind ∨ q = p ∧ kind = .dir := by
  cases kind with
  | dir => simp [Holds, mem_dirs_addDirectory]
  | file => simp [Holds, files_addDirectory]
  | other => simp [Holds]

theorem holds_putFile {f : StoredFile} :
    (s.putFile p f).Holds q kind ↔ s.Holds q kind ∨ q = p ∧ kind = .file := by
  cases kind with
  | dir => simp [Holds, dirs_putFile]
  | file => simp [Holds, mem_paths_putFile]
  | other => simp [Holds]

theorem holds_addAncestors :
    (s.addAncestors p.normalize).Holds q kind ↔ s.Holds q kind ∨ q.IsAbove p.normalize ∧ kind = .dir := by
  have hResolved := Path.resolved_location p
  have hAbove : q ∈ ancestors (p.normalize.length + 1) p.normalize ↔ q.IsAbove p.normalize :=
    mem_ancestors_iff hResolved (Nat.lt_succ_of_le hResolved.length_names_le)
  have hEach := foldl_iff (P := fun s : MemoryFiles => s.Holds q kind) (fun s d => holds_addDirectory (p := d))
    (ancestors (p.normalize.length + 1) p.normalize) s
  rw [addAncestors, hEach, ← hAbove]
  refine or_congr_right ⟨?_, fun ⟨hMem, hKind⟩ => ⟨q, hMem, rfl, hKind⟩⟩
  rintro ⟨d, hMem, rfl, hKind⟩
  exact ⟨hMem, hKind⟩

end

namespace IsRooted

variable {s : MemoryFiles} (h : s.IsRooted) {p : Path}
include h

/-- The way up from a stored path does not leave what is stored. -/
theorem mem_dirs {kind : EntryKind} (hp : s.Holds p kind) {d : Path} (hAbove : d.IsAbove p) : d ∈ s.dirs := by
  induction hAbove with
  | single hDir => exact h p kind hp _ hDir
  | tail _ hDir ih => exact h _ .dir ih _ hDir

theorem addAncestors (p : Path) : (s.addAncestors p.normalize).IsRooted := by
  intro q kind hq d hDir
  show (s.addAncestors p.normalize).Holds d .dir
  rw [holds_addAncestors]
  rcases holds_addAncestors.mp hq with hStored | ⟨hAbove, -⟩
  · exact .inl (h q kind hStored d hDir)
  · exact .inr ⟨hAbove.tail hDir, rfl⟩

theorem addDirectory (hParent : ∀ d ∈ p.directory, d ∈ s.dirs) : (s.addDirectory p).IsRooted := by
  intro q kind hq d hDir
  refine mem_dirs_addDirectory.mpr (.inl ?_)
  rcases holds_addDirectory.mp hq with hStored | ⟨rfl, -⟩
  · exact h q kind hStored d hDir
  · exact hParent d hDir

theorem putFile (hParent : ∀ d ∈ p.directory, d ∈ s.dirs) (f : StoredFile) : (s.putFile p f).IsRooted := by
  intro q kind hq d hDir
  rw [dirs_putFile]
  rcases holds_putFile.mp hq with hStored | ⟨rfl, -⟩
  · exact h q kind hStored d hDir
  · exact hParent d hDir

end IsRooted

theorem directory_mem_addAncestors (s : MemoryFiles) (p : Path) :
    ∀ d ∈ p.normalize.directory, d ∈ (s.addAncestors p.normalize).dirs :=
  fun _ hDir => holds_addAncestors.mpr (.inr ⟨.single hDir, rfl⟩)

theorem any_isDir_iff {s : MemoryFiles} {dir : Option Path} : dir.any s.isDir ↔ ∃ d ∈ dir, d ∈ s.dirs := by
  cases dir <;> simp [isDir]

namespace Built

variable {s : MemoryFiles} (h : s.Built)
include h

/-- The directories above a path are stored before the path is, and a write finds its directory stored. -/
theorem isRooted : s.IsRooted := by
  induction h with
  | empty =>
    intro p kind hp
    cases kind <;> cases hp
  | @addFile s p contents _ ih => exact (ih.addAncestors p).putFile (directory_mem_addAncestors s p) _
  | @addDir s p _ ih => exact (ih.addAncestors p).addDirectory (directory_mem_addAncestors s p)
  | @writeFile s p contents mode _ ih =>
    rw [MemoryFiles.writeFile]
    split
    · rename_i hParent
      obtain ⟨d, hDir, hStored⟩ := any_isDir_iff.mp hParent
      refine ih.putFile (fun d' hDir' => ?_) _
      rwa [Option.mem_unique hDir' hDir]
    · exact ih

theorem exists_entries {d : Path} (hd : d ∈ s.dirs) : ∃ entries, s.entries d = .ok entries := by
  obtain ⟨l, hl, rfl⟩ := h.exists_resolved d hd
  refine ⟨_, (entries_ok_iff s _ _).mpr ⟨?_, rfl⟩⟩
  rw [hl.normalize_render]
  exact List.contains_iff_mem.mpr hd

end Built

theorem writeFile_ok_iff {s s' : MemoryFiles} {p : Path} {contents : Bytes} {mode : Nat} {result : Except IoError Unit}
    (hWrite : s.writeFile p contents mode = (s', result)) :
    result = .ok () ↔ ∃ d ∈ p.normalize.directory, d ∈ s.dirs := by
  rw [← any_isDir_iff]
  rw [writeFile] at hWrite
  split at hWrite
  · rename_i hParent
    exact iff_of_true (Prod.mk.inj hWrite).2.symm hParent
  · rename_i hParent
    refine iff_of_false ?_ hParent
    rw [← (Prod.mk.inj hWrite).2]
    rintro ⟨⟩

/-- Above a stored path every directory is stored, and it can be listed. A write succeeds exactly if the directory of its
normalized path is stored. It then changes the contents and the mode behind this path only, and changes nothing if it
fails. -/
theorem directoriesAbove_stored {s : MemoryFiles} (hBuilt : s.Built) :
    (∀ p kind, s.Holds p kind → ∀ d : Path, d.IsAbove p → d ∈ s.dirs ∧ ∃ entries, s.entries d = .ok entries) ∧
    ∀ p contents mode s' result, s.writeFile p contents mode = (s', result) →
      (result = .ok () ↔ ∃ d ∈ p.normalize.directory, d ∈ s.dirs) ∧
      (result = .ok () → s.Stores s' p.normalize ⟨contents, mode⟩) ∧
      ∀ cause, result = .error cause → s' = s := by
  constructor
  · intro p kind hp d hAbove
    have hStored := hBuilt.isRooted.mem_dirs hp hAbove
    exact ⟨hStored, hBuilt.exists_entries hStored⟩
  · intro p contents mode s' result hWrite
    refine ⟨writeFile_ok_iff hWrite, ?_, ?_⟩
    · rintro rfl
      exact stores_of_writeFile hWrite
    · rintro cause rfl
      exact eq_of_writeFile_error hWrite

/-- A directory beside the working directory, a write that fails since `x` is not stored, and one that does not. -/
def writtenFiles : MemoryFiles :=
  (((empty.addDir "../x/y".toList).writeFile "x/b.go".toList [] 0o600).1.writeFile "../x/./y/a.go".toList [1] 0o600).1

theorem built_writtenFiles : writtenFiles.Built := .writeFile _ _ _ (.writeFile _ _ _ (.addDir _ .empty))

theorem isAbove_writtenPath : Path.IsAbove ['.'] "../x/y/a.go".toList := by
  have hFile : Path.directory "../x/y/a.go".toList = some "../x/y".toList := rfl
  have hInner : Path.directory "../x/y".toList = some "../x".toList := rfl
  have hOuter : Path.directory "../x".toList = some "..".toList := rfl
  exact .tail (.tail (.tail (.single hFile) hInner) hOuter) rfl

theorem directoriesAbove_stored_writtenFiles : writtenFiles.Built ∧
    writtenFiles.Holds "../x/y/a.go".toList .file ∧ Path.IsAbove ['.'] "../x/y/a.go".toList ∧
    (['.'] ∈ writtenFiles.dirs ∧ ∃ entries, writtenFiles.entries ['.'] = .ok entries) ∧
    (∃ s' cause, writtenFiles.writeFile "x/b.go".toList [2] 0o644 = (s', .error cause) ∧ s' = writtenFiles) ∧
    ∃ s', writtenFiles.writeFile "..//x/y/a.go".toList [2] 0o644 = (s', .ok ()) ∧
      writtenFiles.Stores s' "../x/y/a.go".toList ⟨[2], 0o644⟩ := by
  obtain ⟨hAbove, hWrites⟩ := directoriesAbove_stored built_writtenFiles
  have hHolds : writtenFiles.Holds "../x/y/a.go".toList .file := by
    show "../x/y/a.go".toList ∈ writtenFiles.files.map Prod.fst
    decide
  have hFails : writtenFiles.writeFile "x/b.go".toList [2] 0o644 =
      (_, .error ⟨.notFound, "parent directory missing for x/b.go".toList⟩) := rfl
  have hSucceeds : writtenFiles.writeFile "..//x/y/a.go".toList [2] 0o644 = (_, .ok ()) := rfl
  refine ⟨built_writtenFiles, hHolds, isAbove_writtenPath, hAbove _ _ hHolds _ isAbove_writtenPath, ?_, ?_⟩
  · obtain ⟨-, -, hSame⟩ := hWrites _ _ _ _ _ hFails
    exact ⟨_, _, hFails, hSame _ rfl⟩
  · obtain ⟨-, hStores, -⟩ := hWrites _ _ _ _ _ hSucceeds
    exact ⟨_, hSucceeds, hStores rfl⟩

end MemoryFiles

end GoCommands
