import GoCommands.FileSystem.Memory
import GoCommands.Proofs.Path

/-! # Files in memory after a write

A write into a directory adds one name to the directory, if it is not there, and changes the bytes behind
this name only.
-/

namespace GoCommands.MemoryFiles

section

variable (s : MemoryFiles) (p : Path) (f : StoredFile)

theorem fst_replace (g : Path × StoredFile) : (if g.1 == p then (p, f) else g).1 = g.1 := by
  split
  · rename_i hStored
    exact (beq_iff_eq.mp hStored).symm
  · rfl

theorem file?_putFile (q : Path) : (s.putFile p f).file? q = if p = q then some f else s.file? q := by
  rw [putFile, file?, file?]
  split
  · rename_i hStored
    have hPath : ((fun g => g.1 == q) ∘ fun g : Path × StoredFile => if g.1 == p then (p, f) else g) =
        fun g => g.1 == q := by
      funext g
      rw [Function.comp_apply, fst_replace]
    rw [List.find?_map, hPath, Option.map_map]
    cases hFound : s.files.find? fun g => g.1 == q with
    | none =>
      obtain ⟨g, hg, hMatch⟩ := List.any_eq_true.mp hStored
      have hOther : p ≠ q := by
        rintro rfl
        exact List.find?_eq_none.mp hFound g hg hMatch
      rw [if_neg hOther]
      rfl
    | some g =>
      obtain rfl : g.1 = q := by simpa using List.find?_some hFound
      by_cases hEq : g.1 = p
      · simp [hEq]
      · simp [hEq, Ne.symm hEq]
  · rename_i hNew
    rw [List.find?_append]
    by_cases hEq : p = q
    · subst hEq
      have hNone : (s.files.find? fun g => g.1 == p) = none :=
        List.find?_eq_none.mpr fun g hg hMatch => hNew (List.any_eq_true.mpr ⟨g, hg, hMatch⟩)
      simp [hNone]
    · simp [hEq]

theorem paths_putFile : (s.putFile p f).files.map Prod.fst =
    if p ∈ s.files.map Prod.fst then s.files.map Prod.fst else s.files.map Prod.fst ++ [p] := by
  have hStored : (s.files.any fun g => g.1 == p) ↔ p ∈ s.files.map Prod.fst := by
    simp only [List.any_eq_true, beq_iff_eq, List.mem_map]
  rw [putFile]
  split
  · rename_i hMatch
    rw [if_pos (hStored.mp hMatch), List.map_map]
    exact List.map_congr_left fun g _ => fst_replace p f g
  · rename_i hNew
    rw [if_neg (mt hStored.mpr hNew), List.map_append]
    rfl

theorem mem_paths_putFile (q : Path) :
    q ∈ (s.putFile p f).files.map Prod.fst ↔ q ∈ s.files.map Prod.fst ∨ q = p := by
  rw [paths_putFile]
  split
  · rename_i hStored
    refine ⟨.inl, ?_⟩
    rintro (h | rfl)
    · exact h
    · exact hStored
  · rw [List.mem_append, List.mem_singleton]

theorem dirs_putFile : (s.putFile p f).dirs = s.dirs := by
  rw [putFile]
  split <;> rfl

end

/-- The file is stored at a place and all else is as it was. -/
structure Stores (s s' : MemoryFiles) (place : Path) (f : StoredFile) : Prop where
  file?_eq : ∀ p, s'.file? p = if place = p then some f else s.file? p
  paths : ∀ p, p ∈ s'.files.map Prod.fst ↔ p ∈ s.files.map Prod.fst ∨ p = place
  dirs : s'.dirs = s.dirs

theorem stores_putFile (s : MemoryFiles) (place : Path) (f : StoredFile) : Stores s (s.putFile place f) place f :=
  ⟨file?_putFile s place f, mem_paths_putFile s place f, dirs_putFile s place f⟩

theorem Stores.bytes_eq {s s' : MemoryFiles} {place : Path} {f : StoredFile} (h : Stores s s' place f) (p : Path) :
    s'.bytes p = if place = p.normalize then .ok f.contents else s.bytes p := by
  rw [bytes, h.file?_eq]
  by_cases hPlace : place = p.normalize
  · rw [if_pos hPlace, if_pos hPlace]
  · rw [if_neg hPlace, if_neg hPlace]
    rfl

theorem entries_ok_iff (s : MemoryFiles) (dir : Path) (es : List DirEntry) :
    s.entries dir = .ok es ↔ s.isDir dir.normalize ∧
      es = (s.dirs.filter fun d => d.directory == some dir.normalize).map (entryOf .dir) ++
        ((s.files.map Prod.fst).filter fun f => f.directory == some dir.normalize).map (entryOf .file) := by
  rw [entries]
  by_cases hDir : s.isDir dir.normalize
  · simp [hDir, @eq_comm _ es]
  · simp [hDir]

/-- The files and directories directly inside a directory have names or no name at all. -/
theorem name_of_mem_entries {s : MemoryFiles} {dir : Path} {es : List DirEntry} (h : s.entries dir = .ok es)
    {e : DirEntry} (he : e ∈ es) : e.name = [] ∨ Path.IsName e.name := by
  have hEntry : ∃ kind path, e = entryOf kind path := by
    rw [((entries_ok_iff s dir es).mp h).2] at he
    rcases List.mem_append.mp he with he | he <;> obtain ⟨path, -, rfl⟩ := List.mem_map.mp he
    · exact ⟨_, _, rfl⟩
    · exact ⟨_, _, rfl⟩
  obtain ⟨kind, path, rfl⟩ := hEntry
  rw [entryOf]
  cases hName : path.fileName with
  | none => exact .inl rfl
  | some n => exact .inr (Path.isName_of_fileName hName)

theorem writeFile_of_isDir {s : MemoryFiles} {p : Path} (h : p.normalize.directory.any s.isDir) (contents : Bytes)
    (mode : Nat) : (s.writeFile p contents mode).2 = .ok () := by
  rw [writeFile, if_pos h]

theorem eq_putFile_of_writeFile {s s' : MemoryFiles} {p : Path} {contents : Bytes} {mode : Nat}
    (hWrite : s.writeFile p contents mode = (s', .ok ())) : s' = s.putFile p.normalize ⟨contents, mode⟩ := by
  rw [writeFile] at hWrite
  split at hWrite
  · exact (Prod.mk.inj hWrite).1.symm
  · cases hWrite

theorem stores_of_writeFile {s s' : MemoryFiles} {p : Path} {contents : Bytes} {mode : Nat}
    (hWrite : s.writeFile p contents mode = (s', .ok ())) : Stores s s' p.normalize ⟨contents, mode⟩ := by
  rw [eq_putFile_of_writeFile hWrite]
  exact stores_putFile s _ _

theorem eq_of_writeFile_error {s s' : MemoryFiles} {p : Path} {contents : Bytes} {mode : Nat} {cause : IoError}
    (h : s.writeFile p contents mode = (s', .error cause)) : s' = s := by
  rw [writeFile] at h
  split at h
  · cases h
  · exact (Prod.mk.inj h).1.symm

section

variable {s s' : MemoryFiles} {dir : Path} {n : Text} {contents : Bytes} {mode : Nat}
  (hName : Path.IsName n) (hWrite : s.writeFile (Path.join dir n) contents mode = (s', .ok ()))
include hName hWrite

/-- Only the name that was written has other bytes. -/
theorem bytes_writeFile {m : Text} (hm : Path.IsName m) :
    s'.bytes (Path.join dir m) = if m = n then .ok contents else s.bytes (Path.join dir m) := by
  rw [eq_putFile_of_writeFile hWrite, bytes, file?_putFile]
  by_cases hEq : m = n
  · subst hEq
    simp
  · have hPath : (Path.join dir n).normalize ≠ (Path.join dir m).normalize := fun hSame =>
      hEq (Path.eq_of_normalize_join_eq hName hm hSame).symm
    rw [if_neg hPath, if_neg hEq]
    rfl

/-- The name that was written is the only new one. -/
theorem entries_writeFile {es : List DirEntry} (hEntries : s.entries dir = .ok es) :
    ∃ es', s'.entries dir = .ok es' ∧ ∀ e, e ∈ es' ↔ e ∈ es ∨ e = ⟨n, .file⟩ := by
  obtain ⟨hDir, rfl⟩ := (entries_ok_iff s dir es).mp hEntries
  rw [eq_putFile_of_writeFile hWrite]
  refine ⟨_, (entries_ok_iff _ dir _).mpr ⟨?_, rfl⟩, fun e => ?_⟩
  · rwa [isDir, dirs_putFile]
  · have hEntry : entryOf .file (Path.join dir n).normalize = ⟨n, .file⟩ := by
      rw [entryOf, Path.fileName_normalize_join dir hName]
      rfl
    rw [dirs_putFile, List.mem_append, List.mem_append, or_assoc]
    refine or_congr_right ?_
    rw [List.mem_map, List.mem_map]
    constructor
    · rintro ⟨path, hPath, rfl⟩
      obtain ⟨hMem, hIn⟩ := List.mem_filter.mp hPath
      rcases (mem_paths_putFile s _ _ path).mp hMem with hOld | rfl
      · exact .inl ⟨path, List.mem_filter.mpr ⟨hOld, hIn⟩, rfl⟩
      · exact .inr hEntry
    · rintro (⟨path, hPath, rfl⟩ | rfl)
      · obtain ⟨hOld, hIn⟩ := List.mem_filter.mp hPath
        exact ⟨path, List.mem_filter.mpr ⟨(mem_paths_putFile s _ _ path).mpr (.inl hOld), hIn⟩, rfl⟩
      · refine ⟨_, List.mem_filter.mpr ⟨(mem_paths_putFile s _ _ _).mpr (.inr rfl), ?_⟩, hEntry⟩
        exact beq_iff_eq.mpr (Path.directory_normalize_join dir hName)

end

end GoCommands.MemoryFiles
