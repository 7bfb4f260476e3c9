import GoCommands.Proofs.FileSystem.Memory
import GoCommands.Proofs.Path.Normal

/-! # Directories that are stored

Files in memory begin empty, and what is added or written stores normalized paths only. So a directory that
another one lists has a name behind it, with one exception: `..` is stored in the top directory, where it
has no name.
-/

namespace GoCommands.MemoryFiles

/-- Additions and writes lead from the empty state to this one. -/
inductive Built : MemoryFiles → Prop
  | empty : Built empty
  | addFile {s : MemoryFiles} (p : Path) (contents : Bytes) : Built s → Built (s.addFile p contents)
  | addDir {s : MemoryFiles} (p : Path) : Built s → Built (s.addDir p)
  | writeFile {s : MemoryFiles} (p : Path) (contents : Bytes) (mode : Nat) :
    Built s → Built (s.writeFile p contents mode).1

/-- The path is the top of the relative or of the absolute ones, and `..` is stored there. -/
def StoresAbove (s : MemoryFiles) (p : Path) : Prop :=
  p.normalize = ['.'] ∧ ['.', '.'] ∈ s.dirs ∨ p.normalize = ['/'] ∧ ['/', '.', '.'] ∈ s.dirs

theorem mem_dirs_addDirectory {s : MemoryFiles} {p d : Path} :
    d ∈ (s.addDirectory p).dirs ↔ d ∈ s.dirs ∨ d = p := by
  rw [addDirectory]
  split
  · rename_i hDir
    refine ⟨.inl, ?_⟩
    rintro (h | rfl)
    · exact h
    · exact List.contains_iff_mem.mp hDir
  · rw [List.mem_append, List.mem_singleton]

theorem files_addDirectory (s : MemoryFiles) (p : Path) : (s.addDirectory p).files = s.files := by
  rw [addDirectory]
  split <;> rfl

theorem exists_of_mem_ancestors {l : Path.Location} (h : l.Resolved) {fuel : Nat} {d : Path}
    (hd : d ∈ ancestors fuel l.render) : ∃ l' : Path.Location, l'.Resolved ∧ d = l'.render := by
  induction fuel generalizing l with
  | zero => cases hd
  | succ fuel ih =>
    rw [ancestors] at hd
    split at hd
    · cases hd
    · rename_i dir hDir
      obtain ⟨before, hBefore, rfl, -⟩ := h.exists_of_directory hDir
      rcases List.mem_cons.mp hd with rfl | hd
      · exact ⟨before, hBefore, rfl⟩
      · exact ih hBefore hd

/-- What the storing of one directory and of one file keeps holds of every state. -/
theorem Built.of_steps {P : MemoryFiles → Prop} (hEmpty : P MemoryFiles.empty)
    (hDirectory : ∀ s (l : Path.Location), l.Resolved → P s → P (s.addDirectory l.render))
    (hFile : ∀ s (l : Path.Location) f, l.Resolved → P s → P (s.putFile l.render f)) {s : MemoryFiles}
    (h : Built s) : P s := by
  have hDirectories : ∀ (ps : List Path) s, (∀ p ∈ ps, ∃ l : Path.Location, l.Resolved ∧ p = l.render) →
      P s → P (ps.foldl addDirectory s) := by
    intro ps
    induction ps with
    | nil => exact fun s _ hs => hs
    | cons p ps ih =>
      intro s hPaths hs
      obtain ⟨⟨l, hl, rfl⟩, hRest⟩ := List.forall_mem_cons.mp hPaths
      exact ih _ hRest (hDirectory s l hl hs)
  have hAncestors : ∀ s (p : Path), P s → P (s.addAncestors p.normalize) := fun s p hs =>
    hDirectories _ s (fun _ hd => exists_of_mem_ancestors (Path.resolved_location p) hd) hs
  induction h with
  | empty => exact hEmpty
  | addFile p contents _ ih => exact hFile _ _ _ (Path.resolved_location p) (hAncestors _ p ih)
  | addDir p _ ih => exact hDirectory _ _ (Path.resolved_location p) (hAncestors _ p ih)
  | writeFile p contents mode _ ih =>
    rw [MemoryFiles.writeFile]
    split
    · exact hFile _ _ _ (Path.resolved_location p) ih
    · exact ih

theorem Built.exists_resolved {s : MemoryFiles} (h : Built s) :
    ∀ d ∈ s.dirs, ∃ l : Path.Location, l.Resolved ∧ d = l.render := by
  refine Built.of_steps (P := fun s => ∀ d ∈ s.dirs, ∃ l : Path.Location, l.Resolved ∧ d = l.render)
    (List.forall_mem_nil _) (fun s l hl hs d hd => ?_) (fun s l f _ hs => ?_) h
  · rcases mem_dirs_addDirectory.mp hd with hd | rfl
    · exact hs d hd
    · exact ⟨l, hl, rfl⟩
  · rwa [dirs_putFile]

section

variable {s : MemoryFiles} {dir : Path} {entries : List DirEntry} (hEntries : s.entries dir = .ok entries)
include hEntries

theorem mem_subdirectories_iff {name : Text} : ⟨name, .dir⟩ ∈ entries ↔
    ∃ d ∈ s.dirs, d.directory = some dir.normalize ∧ d.fileName.getD [] = name := by
  obtain ⟨-, rfl⟩ := (entries_ok_iff s dir entries).mp hEntries
  simp [entryOf, and_assoc]

/-- A listed directory is stored where its name leads, or it has no name. -/
theorem Built.subdirectory (h : Built s) {name : Text} (hMem : ⟨name, .dir⟩ ∈ entries) :
    Path.IsName name ∧ (Path.join dir name).normalize ∈ s.dirs ∨ name = [] ∧ s.StoresAbove dir := by
  obtain ⟨d, hd, hDir, rfl⟩ := (mem_subdirectories_iff hEntries).mp hMem
  obtain ⟨l, hl, rfl⟩ := h.exists_resolved d hd
  rcases Path.child_cases hl hDir with ⟨n, hn, hPath⟩ | ⟨absolute, hTop, hAbove⟩
  · rw [hPath] at hd ⊢
    rw [Path.fileName_normalize_join dir hn]
    exact .inl ⟨hn, hd⟩
  · rw [hAbove] at hd ⊢
    cases absolute with
    | false => exact .inr ⟨rfl, .inl ⟨hTop, hd⟩⟩
    | true => exact .inr ⟨rfl, .inr ⟨hTop, hd⟩⟩

theorem StoresAbove.mem_entries (h : s.StoresAbove dir) : ⟨[], .dir⟩ ∈ entries := by
  rw [mem_subdirectories_iff hEntries]
  rcases h with ⟨hTop, hAbove⟩ | ⟨hTop, hAbove⟩
  · exact ⟨_, hAbove, by rw [hTop]; rfl, rfl⟩
  · exact ⟨_, hAbove, by rw [hTop]; rfl, rfl⟩

end

theorem not_storesAbove_join (s : MemoryFiles) (dir : Path) {name : Text} (hName : Path.IsName name) :
    ¬ s.StoresAbove (Path.join dir name) := by
  have hFile := Path.fileName_normalize_join dir hName
  rintro (⟨hTop, -⟩ | ⟨hTop, -⟩) <;> rw [hTop] at hFile <;> cases hFile

theorem storesAbove_join_nil {s : MemoryFiles} {dir : Path} :
    s.StoresAbove (Path.join dir []) ↔ s.StoresAbove dir := by
  rw [StoresAbove, Path.normalize_join_nil]
  rfl

end GoCommands.MemoryFiles
