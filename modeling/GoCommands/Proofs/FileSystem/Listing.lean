import GoCommands.Proofs.FileSystem.Stored
import Mathlib.Data.List.Nodup

/-! # What a directory lists

Each entry of a directory stands for a stored path. Its name leads back there from the directory unless the path is
`..`, which has no name, and the names are all different unless a path is stored both as a file and as a directory.
-/

namespace GoCommands.MemoryFiles

/-- The path is stored as an entry of this kind. -/
def Holds (s : MemoryFiles) (p : Path) : EntryKind → Prop
  | .dir => p ∈ s.dirs
  | .file => p ∈ s.files.map Prod.fst
  | .other => False

/-- `..` is stored in the directory, which then is the top of the relative or of the absolute paths. -/
def HoldsAbove (s : MemoryFiles) (dir : Path) : Prop :=
  ∃ kind absolute, dir.normalize = Path.Location.render ⟨absolute, []⟩ ∧
    s.Holds (Path.Location.render ⟨absolute, [['.', '.']]⟩) kind

/-- A path in the directory is stored as a directory and as a file. -/
def HoldsTwice (s : MemoryFiles) (dir : Path) : Prop :=
  ∃ p : Path, p.directory = some dir.normalize ∧ s.Holds p .dir ∧ s.Holds p .file

/-- The stored paths of a directory, in the order of its entries. -/
def childPaths (s : MemoryFiles) (dir : Path) : List Path :=
  (s.dirs.filter fun d => d.directory == some dir.normalize) ++
    (s.files.map Prod.fst).filter fun f => f.directory == some dir.normalize

namespace Built

variable {s : MemoryFiles} (h : s.Built)
include h

theorem exists_resolved_file : ∀ f ∈ s.files.map Prod.fst, ∃ l : Path.Location, l.Resolved ∧ f = l.render := by
  refine Built.of_steps
    (P := fun s => ∀ f ∈ s.files.map Prod.fst, ∃ l : Path.Location, l.Resolved ∧ f = l.render)
    (List.forall_mem_nil _) (fun s l _ hs => ?_) (fun s l f hl hs p hp => ?_) h
  · rwa [files_addDirectory]
  · rcases (mem_paths_putFile s _ f p).mp hp with hp | rfl
    · exact hs p hp
    · exact ⟨l, hl, rfl⟩

theorem nodup_dirs : s.dirs.Nodup := by
  refine Built.of_steps (P := fun s => s.dirs.Nodup) .nil (fun s l _ hs => ?_) (fun s l f _ hs => ?_) h
  · rw [addDirectory]
    split
    · exact hs
    · rename_i hNew
      rw [← List.concat_eq_append]
      exact hs.concat (mt List.contains_iff_mem.mpr hNew)
  · rwa [dirs_putFile]

theorem nodup_files : (s.files.map Prod.fst).Nodup := by
  refine Built.of_steps (P := fun s => (s.files.map Prod.fst).Nodup) .nil (fun s l _ hs => ?_)
    (fun s l f _ hs => ?_) h
  · rwa [files_addDirectory]
  · rw [paths_putFile]
    split
    · exact hs
    · rename_i hNew
      rw [← List.concat_eq_append]
      exact hs.concat hNew

theorem exists_resolved_of_holds {p : Path} {kind : EntryKind} (hp : s.Holds p kind) :
    ∃ l : Path.Location, l.Resolved ∧ p = l.render := by
  cases kind with
  | dir => exact h.exists_resolved p hp
  | file => exact h.exists_resolved_file p hp
  | other => exact hp.elim

/-- A stored path is its directory with a name, or it leads above the top and has no name. -/
theorem child_cases {p dir : Path} {kind : EntryKind} (hp : s.Holds p kind)
    (hDir : p.directory = some dir.normalize) :
    (∃ n, Path.IsName n ∧ p.fileName = some n ∧ p = (Path.join dir n).normalize) ∨
      p.fileName = none ∧ ∃ absolute, dir.normalize = Path.Location.render ⟨absolute, []⟩ ∧
        p = Path.Location.render ⟨absolute, [['.', '.']]⟩ := by
  obtain ⟨l, hl, rfl⟩ := h.exists_resolved_of_holds hp
  rcases Path.child_cases hl hDir with ⟨n, hn, hPath⟩ | ⟨absolute, hTop, hAbove⟩
  · exact .inl ⟨n, hn, by rw [hPath, Path.fileName_normalize_join dir hn], hPath⟩
  · refine .inr ⟨?_, absolute, hTop, hAbove⟩
    rw [hAbove]
    cases absolute <;> rfl

end Built

section

variable {s : MemoryFiles} {dir : Path} {entries : List DirEntry} (hEntries : s.entries dir = .ok entries)
include hEntries

theorem mem_entries_iff {e : DirEntry} : e ∈ entries ↔
    ∃ p : Path, s.Holds p e.kind ∧ p.directory = some dir.normalize ∧ e.name = p.fileName.getD [] := by
  obtain ⟨-, rfl⟩ := (entries_ok_iff s dir entries).mp hEntries
  rw [List.mem_append, List.mem_map, List.mem_map]
  constructor
  · rintro (⟨p, hp, rfl⟩ | ⟨p, hp, rfl⟩)
    · exact ⟨p, (List.mem_filter.mp hp).1, beq_iff_eq.mp (List.mem_filter.mp hp).2, rfl⟩
    · exact ⟨p, (List.mem_filter.mp hp).1, beq_iff_eq.mp (List.mem_filter.mp hp).2, rfl⟩
  · rintro ⟨p, hp, hDir, hName⟩
    obtain ⟨name, kind⟩ := e
    obtain rfl : name = p.fileName.getD [] := hName
    cases kind with
    | dir => exact .inl ⟨p, List.mem_filter.mpr ⟨hp, beq_iff_eq.mpr hDir⟩, rfl⟩
    | file => exact .inr ⟨p, List.mem_filter.mpr ⟨hp, beq_iff_eq.mpr hDir⟩, rfl⟩
    | other => exact hp.elim

theorem map_name_entries : entries.map DirEntry.name = (s.childPaths dir).map fun p => p.fileName.getD [] := by
  obtain ⟨-, rfl⟩ := (entries_ok_iff s dir entries).mp hEntries
  rw [childPaths, List.map_append, List.map_append, List.map_map, List.map_map]
  rfl

theorem Built.names_nonempty_iff (h : s.Built) : (∀ e ∈ entries, e.name ≠ []) ↔ ¬ s.HoldsAbove dir := by
  constructor
  · rintro hNames ⟨kind, absolute, hTop, hAbove⟩
    refine hNames ⟨[], kind⟩ ((mem_entries_iff hEntries).mpr ⟨_, hAbove, ?_, ?_⟩) rfl
    · rw [hTop]
      cases absolute <;> rfl
    · cases absolute <;> rfl
  · intro hNot e he
    obtain ⟨p, hp, hDir, hName⟩ := (mem_entries_iff hEntries).mp he
    rcases h.child_cases hp hDir with ⟨n, hn, hFile, -⟩ | ⟨-, absolute, hTop, rfl⟩
    · rw [hName, hFile]
      exact hn.nonempty
    · exact absurd ⟨e.kind, absolute, hTop, hp⟩ hNot

/-- A name leads to its path, and no name leads to `..`. -/
theorem Built.places_iff (h : s.Built) : (∀ p kind,
    (∃ e ∈ entries, e.kind = kind ∧ (Path.join dir e.name).normalize = p) ↔
      s.Holds p kind ∧ p.directory = some dir.normalize) ↔ ¬ s.HoldsAbove dir := by
  constructor
  · rintro hPlaces ⟨kind, absolute, hTop, hAbove⟩
    have hDir : (Path.Location.render ⟨absolute, [['.', '.']]⟩).directory = some dir.normalize := by
      rw [hTop]
      cases absolute <;> rfl
    obtain ⟨e, he, -, hPlace⟩ := (hPlaces _ kind).mpr ⟨hAbove, hDir⟩
    rcases name_of_mem_entries hEntries he with hName | hName
    · rw [hName, Path.normalize_join_nil, hTop] at hPlace
      cases absolute <;> cases hPlace
    · have hFile := Path.fileName_normalize_join dir hName
      rw [hPlace] at hFile
      cases absolute <;> cases hFile
  · intro hNot p kind
    have hNamed : ∀ {q : Path} {kind : EntryKind}, s.Holds q kind → q.directory = some dir.normalize →
        q = (Path.join dir (q.fileName.getD [])).normalize := by
      intro q kind hq hDir
      rcases h.child_cases hq hDir with ⟨n, -, hFile, hPath⟩ | ⟨-, absolute, hTop, rfl⟩
      · rwa [hFile]
      · exact absurd ⟨kind, absolute, hTop, hq⟩ hNot
    constructor
    · rintro ⟨e, he, rfl, rfl⟩
      obtain ⟨q, hq, hDir, hName⟩ := (mem_entries_iff hEntries).mp he
      rw [hName, ← hNamed hq hDir]
      exact ⟨hq, hDir⟩
    · rintro ⟨hp, hDir⟩
      exact ⟨⟨p.fileName.getD [], kind⟩, (mem_entries_iff hEntries).mpr ⟨p, hp, hDir, rfl⟩, rfl,
        (hNamed hp hDir).symm⟩

end

theorem mem_childPaths_iff {s : MemoryFiles} {dir p : Path} :
    p ∈ s.childPaths dir ↔ ∃ kind, s.Holds p kind ∧ p.directory = some dir.normalize := by
  rw [childPaths, List.mem_append, List.mem_filter, List.mem_filter, beq_iff_eq]
  constructor
  · rintro (hp | hp)
    · exact ⟨.dir, hp⟩
    · exact ⟨.file, hp⟩
  · rintro ⟨kind, hp, hDir⟩
    cases kind with
    | dir => exact .inl ⟨hp, hDir⟩
    | file => exact .inr ⟨hp, hDir⟩
    | other => exact hp.elim

theorem Built.nodup_childPaths_iff {s : MemoryFiles} (h : s.Built) (dir : Path) :
    (s.childPaths dir).Nodup ↔ ¬ s.HoldsTwice dir := by
  rw [childPaths, List.nodup_append]
  constructor
  · rintro ⟨-, -, hApart⟩ ⟨p, hDir, hDirs, hFiles⟩
    exact hApart p (List.mem_filter.mpr ⟨hDirs, beq_iff_eq.mpr hDir⟩) p
      (List.mem_filter.mpr ⟨hFiles, beq_iff_eq.mpr hDir⟩) rfl
  · intro hNot
    refine ⟨h.nodup_dirs.filter _, h.nodup_files.filter _, ?_⟩
    rintro p hp q hq rfl
    obtain ⟨hDirs, hDir⟩ := List.mem_filter.mp hp
    exact hNot ⟨p, beq_iff_eq.mp hDir, hDirs, (List.mem_filter.mp hq).1⟩

/-- Two paths of one directory with one name are one path, also where there is no name. -/
theorem Built.eq_of_fileName {s : MemoryFiles} (h : s.Built) {dir p q : Path} (hp : p ∈ s.childPaths dir)
    (hq : q ∈ s.childPaths dir) (hName : p.fileName.getD [] = q.fileName.getD []) : p = q := by
  obtain ⟨kind, hp, hDir⟩ := mem_childPaths_iff.mp hp
  obtain ⟨kind', hq, hDir'⟩ := mem_childPaths_iff.mp hq
  rcases h.child_cases hp hDir with ⟨n, hn, hFile, hPath⟩ | ⟨hNone, absolute, hTop, hPath⟩ <;>
    rcases h.child_cases hq hDir' with ⟨n', hn', hFile', hPath'⟩ | ⟨hNone', absolute', hTop', hPath'⟩
  · rw [hFile, hFile', Option.getD_some, Option.getD_some] at hName
    rw [hPath, hPath', hName]
  · rw [hFile, hNone', Option.getD_some, Option.getD_none] at hName
    exact absurd hName hn.nonempty
  · rw [hNone, hFile', Option.getD_some, Option.getD_none] at hName
    exact absurd hName.symm hn'.nonempty
  · rw [hTop'] at hTop
    obtain rfl : absolute = absolute' := by
      cases absolute <;> cases absolute' <;> first | rfl | cases hTop
    rw [hPath, hPath']

/-- A listing is faithful up to two things. Its names are not empty, and lead to the stored files and directories
of the directory, exactly if `..` is not stored there; they are all different exactly if no path there is stored
both as a file and as a directory. -/
theorem entries_faithful_iff {s : MemoryFiles} (hBuilt : s.Built) {dir : Path} {entries : List DirEntry}
    (hEntries : s.entries dir = .ok entries) :
    ((∀ e ∈ entries, e.name ≠ []) ↔ ¬ s.HoldsAbove dir) ∧
    ((entries.map DirEntry.name).Nodup ↔ ¬ s.HoldsTwice dir) ∧
    ((∀ p kind, (∃ e ∈ entries, e.kind = kind ∧ (Path.join dir e.name).normalize = p) ↔
      s.Holds p kind ∧ p.directory = some dir.normalize) ↔ ¬ s.HoldsAbove dir) := by
  refine ⟨hBuilt.names_nonempty_iff hEntries, ?_, hBuilt.places_iff hEntries⟩
  rw [map_name_entries hEntries, ← hBuilt.nodup_childPaths_iff]
  refine ⟨List.Nodup.of_map _, fun hPaths => hPaths.map_on fun p hp q hq => ?_⟩
  exact hBuilt.eq_of_fileName hp hq

/-- A file beside the working directory, and one below another file. -/
def crowdedFiles : MemoryFiles :=
  ((empty.addFile "../x.go".toList []).addFile "ops/a.go".toList []).addFile "ops/a.go/b.go".toList []

theorem built_crowdedFiles : crowdedFiles.Built := .addFile _ _ (.addFile _ _ (.addFile _ _ .empty))

theorem entries_crowdedFiles : crowdedFiles.entries "ops".toList =
    .ok [⟨"a.go".toList, .dir⟩, ⟨"a.go".toList, .file⟩] := by
  rfl

/-- `..` has no name in the working directory, and one name stands twice in `ops`. -/
theorem exists_unfaithful : crowdedFiles.Built ∧
    (∃ entries, crowdedFiles.entries ['.'] = .ok entries ∧ ∃ e ∈ entries, e.name = []) ∧
    ∃ entries, crowdedFiles.entries "ops".toList = .ok entries ∧ ¬ (entries.map DirEntry.name).Nodup := by
  refine ⟨built_crowdedFiles, ⟨_, rfl, ⟨[], .dir⟩, .head _, rfl⟩, _, entries_crowdedFiles, ?_⟩
  decide

theorem entries_faithful_crowdedFiles : crowdedFiles.Built ∧
    crowdedFiles.entries "ops".toList = .ok [⟨"a.go".toList, .dir⟩, ⟨"a.go".toList, .file⟩] ∧
    ¬ crowdedFiles.HoldsAbove "ops".toList ∧ crowdedFiles.HoldsTwice "ops".toList := by
  obtain ⟨hNames, hDistinct, -⟩ := entries_faithful_iff built_crowdedFiles entries_crowdedFiles
  refine ⟨built_crowdedFiles, entries_crowdedFiles, hNames.mp (by decide), ?_⟩
  by_contra hOnce
  exact absurd (hDistinct.mpr hOnce) (by decide)

end GoCommands.MemoryFiles
