import GoCommands.Proofs.Text.Order
import GoCommands.Proofs.Text.Utf8
import GoCommands.Walk
import Mathlib.Data.List.Forall2

/-! # The tagged files of a directory

A visit reads every file that can be tagged by its name. It succeeds exactly if each can be read and those
that the tag selects are UTF-8, and then it gives the tagged files by name.
-/

namespace GoCommands.Walk

section

variable (fs : FileSystem) (options : WalkOptions)

/-- The name belongs to a source file that no generator has written and that the tag selects. -/
structure IsTagged (dir : Path) (name : Text) : Prop where
  listed : ∃ entries, fs.entries dir = .ok entries ∧ ⟨name, .file⟩ ∈ entries
  source : isSourceFile name
  notGenerated : ¬ Text.startsWith (generatedStart options.buildTag) name
  selected : ∃ bytes, fs.bytes (Path.join dir name) = .ok bytes ∧
    Constraint.selects (Utf8.decodeLossy bytes) options.buildTag

/-- The files are the tagged ones of the directory by name, each with the bytes it has there. -/
def HoldsFiles (dir : Path) (files : List TaggedFile) : Prop :=
  ∃ names : List Text, names.Pairwise (· < ·) ∧ (∀ name, name ∈ names ↔ IsTagged fs options dir name) ∧
    List.Forall₂ (fun name file => file.path = Path.join dir name ∧
      fs.bytes file.path = .ok (Utf8.encode file.content)) names files

/-- No two entries of a directory have one name. -/
def DistinctNames (dir : Path) : Prop :=
  ∀ entries, fs.entries dir = .ok entries → (entries.map DirEntry.name).Nodup

def taggedFile (dir : Path) (e : DirEntry) : Option TaggedFile :=
  if mayBeTagged options e then
    match readTagged fs (Path.join dir e.name) (some options.buildTag) with
    | .ok (some text) => some ⟨Path.join dir e.name, text⟩
    | _ => none
  else none

end

section Sorting

theorem forall₂_filterMap {α β : Type} {f : α → Option β} {R : α → β → Prop} (l : List α)
    (h : ∀ a ∈ l, ∀ b, f a = some b → R a b) :
    List.Forall₂ R (l.filter fun a => (f a).isSome) (l.filterMap f) := by
  induction l with
  | nil => exact .nil
  | cons a l ih =>
    have hRest := ih fun b hb => h b (.tail a hb)
    cases hValue : f a with
    | none => rwa [List.filter_cons_of_neg (by simp [hValue]), List.filterMap_cons_none hValue]
    | some b =>
      rw [List.filter_cons_of_pos (by simp [hValue]), List.filterMap_cons_some hValue]
      exact .cons (h a (.head l) b hValue) hRest

theorem mem_sortEntries {entries : List DirEntry} {e : DirEntry} : e ∈ sortEntries entries ↔ e ∈ entries :=
  List.mem_mergeSort

theorem pairwise_sortEntries {entries : List DirEntry} (h : (entries.map DirEntry.name).Nodup) :
    ((sortEntries entries).map DirEntry.name).Pairwise (· < ·) :=
  List.pairwise_map.mpr (Text.pairwise_lt_mergeSort DirEntry.name entries h)

end Sorting

section Files

variable {fs : FileSystem} {options : WalkOptions} {dir : Path}

theorem readTagged_eq_some_iff {path : Path} {tag : Option Text} {text : Text} :
    readTagged fs path tag = .ok (some text) ↔
      fs.bytes path = .ok (Utf8.encode text) ∧ ∀ t ∈ tag, Constraint.selects text t := by
  have hKept : (tag.any fun t => !Constraint.selects text t) = false ↔ ∀ t ∈ tag, Constraint.selects text t := by
    cases tag <;> simp
  rw [readTagged, ← hKept]
  cases fs.bytes path with
  | error cause => simp
  | ok bytes =>
    rw [Except.ok.injEq]
    constructor
    · intro h
      dsimp only at h
      split at h
      · cases h
      · rename_i hSelects
        split at h
        · rename_i decoded hDecode
          obtain rfl := Option.some.inj (Except.ok.inj h)
          obtain rfl := (Utf8.decode_eq_ok_iff bytes decoded).mp hDecode
          rw [Utf8.decodeLossy_encode, Bool.not_eq_true] at hSelects
          exact ⟨rfl, hSelects⟩
        · cases h
    · rintro ⟨rfl, hSelects⟩
      simp only [Utf8.decodeLossy_encode, Utf8.decode_encode, hSelects]
      rfl

/-- A file that the tag does not select can hold any bytes. -/
theorem readTagged_eq_none_iff {path : Path} {tag : Text} :
    readTagged fs path (some tag) = .ok none ↔
      ∃ bytes, fs.bytes path = .ok bytes ∧ ¬ Constraint.selects (Utf8.decodeLossy bytes) tag := by
  rw [readTagged]
  cases fs.bytes path with
  | error cause => simp
  | ok bytes =>
    simp only [Option.any_some, Except.ok.injEq, exists_eq_left']
    cases Constraint.selects (Utf8.decodeLossy bytes) tag with
    | false => simp
    | true => cases Utf8.decode bytes <;> simp

theorem taggedFiles_eq_ok_iff {l : List DirEntry} {files : List TaggedFile} :
    taggedFiles fs options dir l = .ok files ↔
      (∀ e ∈ l, mayBeTagged options e →
        ∃ content, readTagged fs (Path.join dir e.name) (some options.buildTag) = .ok content) ∧
      l.filterMap (taggedFile fs options dir) = files := by
  induction l generalizing files with
  | nil => simp [taggedFiles]
  | cons e l ih =>
    rw [taggedFiles, List.filterMap_cons, List.forall_mem_cons, taggedFile]
    cases hName : mayBeTagged options e with
    | false => simp [ih]
    | true =>
      simp only [if_true, true_imp_iff]
      cases readTagged fs (Path.join dir e.name) (some options.buildTag) with
      | error cause => simp [bind, Except.bind]
      | ok content =>
        simp only [bind, Except.bind]
        cases hMore : taggedFiles fs options dir l with
        | error cause =>
          refine iff_of_false (by simp) ?_
          rintro ⟨⟨-, hRest⟩, -⟩
          rw [ih.mpr ⟨hRest, rfl⟩] at hMore
          cases hMore
        | ok more =>
          obtain ⟨hRest, rfl⟩ := ih.mp hMore
          simp only [Except.ok.injEq, exists_eq', true_and]
          rw [and_iff_right hRest]
          cases content <;> rfl

theorem visit_eq_ok_iff {files : List TaggedFile} {dirs : List Path} :
    visit fs options dir = .ok (files, dirs) ↔ ∃ entries, fs.entries dir = .ok entries ∧
      taggedFiles fs options dir (sortEntries entries) = .ok files ∧
      subdirectories options dir (sortEntries entries) = dirs := by
  rw [visit]
  cases fs.entries dir with
  | error cause => simp
  | ok entries =>
    simp only [Except.ok.injEq, exists_eq_left', bind, Except.bind]
    cases taggedFiles fs options dir (sortEntries entries) <;> simp

/-- Entries that are listed by name need no sorting. -/
theorem visit_of_pairwise (entries : List DirEntry) {files : List TaggedFile} {dirs : List Path}
    (hEntries : fs.entries dir = .ok entries) (hOrder : entries.Pairwise fun a b => Text.le a.name b.name)
    (hFiles : taggedFiles fs options dir entries = .ok files)
    (hDirs : subdirectories options dir entries = dirs) : visit fs options dir = .ok (files, dirs) := by
  have hSorted : sortEntries entries = entries := List.mergeSort_of_pairwise hOrder
  rw [visit_eq_ok_iff, ← hFiles, ← hDirs]
  exact ⟨entries, hEntries, by rw [hSorted], by rw [hSorted]⟩

theorem taggedFile_eq_some_iff {e : DirEntry} {file : TaggedFile} :
    taggedFile fs options dir e = some file ↔ mayBeTagged options e ∧ file.path = Path.join dir e.name ∧
      fs.bytes file.path = .ok (Utf8.encode file.content) ∧ Constraint.selects file.content options.buildTag := by
  obtain ⟨path, content⟩ := file
  rw [taggedFile]
  split
  · rename_i hName
    rw [and_iff_right hName]
    constructor
    · intro h
      split at h
      · rename_i text hRead
        obtain ⟨rfl, rfl⟩ := TaggedFile.mk.inj (Option.some.inj h)
        obtain ⟨hBytes, hSelects⟩ := readTagged_eq_some_iff.mp hRead
        exact ⟨rfl, hBytes, hSelects _ rfl⟩
      · cases h
    · rintro ⟨rfl, hBytes, hSelects⟩
      have hRead : readTagged fs (Path.join dir e.name) (some options.buildTag) = .ok (some content) :=
        readTagged_eq_some_iff.mpr ⟨hBytes, fun _ ht => (Option.some.inj ht) ▸ hSelects⟩
      rw [hRead]
  · rename_i hName
    simp [hName]

theorem isSome_taggedFile_iff {e : DirEntry}
    (hRead : mayBeTagged options e →
      ∃ content, readTagged fs (Path.join dir e.name) (some options.buildTag) = .ok content) :
    (taggedFile fs options dir e).isSome ↔ mayBeTagged options e ∧
      ∃ bytes, fs.bytes (Path.join dir e.name) = .ok bytes ∧
        Constraint.selects (Utf8.decodeLossy bytes) options.buildTag := by
  rw [Option.isSome_iff_exists]
  constructor
  · rintro ⟨file, hFile⟩
    obtain ⟨hName, hPath, hBytes, hSelects⟩ := taggedFile_eq_some_iff.mp hFile
    rw [hPath] at hBytes
    refine ⟨hName, _, hBytes, ?_⟩
    rwa [Utf8.decodeLossy_encode]
  · rintro ⟨hName, bytes, hBytes, hSelects⟩
    obtain ⟨content, hContent⟩ := hRead hName
    cases content with
    | none =>
      obtain ⟨bytes', hSame, hOther⟩ := readTagged_eq_none_iff.mp hContent
      rw [hBytes] at hSame
      rw [← Except.ok.inj hSame] at hOther
      exact absurd hSelects hOther
    | some text =>
      obtain ⟨hText, hTag⟩ := readTagged_eq_some_iff.mp hContent
      exact ⟨⟨_, text⟩, taggedFile_eq_some_iff.mpr ⟨hName, rfl, hText, hTag _ rfl⟩⟩

theorem mayBeTagged_iff {e : DirEntry} : mayBeTagged options e ↔ e.kind = .file ∧ isSourceFile e.name ∧
    ¬ Text.startsWith (generatedStart options.buildTag) e.name := by
  simp [mayBeTagged, and_assoc]

theorem holdsFiles_of_visit {files : List TaggedFile} {dirs : List Path} (hNames : DistinctNames fs dir)
    (h : visit fs options dir = .ok (files, dirs)) : HoldsFiles fs options dir files := by
  obtain ⟨entries, hEntries, hFiles, -⟩ := visit_eq_ok_iff.mp h
  obtain ⟨hRead, rfl⟩ := taggedFiles_eq_ok_iff.mp hFiles
  -- The names are those of the entries that give a file: this keeps them in the order of the files.
  refine ⟨((sortEntries entries).filter fun e => (taggedFile fs options dir e).isSome).map DirEntry.name,
    ?_, fun name => ?_, ?_⟩
  · exact (pairwise_sortEntries (hNames entries hEntries)).sublist (List.filter_sublist.map DirEntry.name)
  · rw [List.mem_map]
    constructor
    · rintro ⟨e, he, rfl⟩
      obtain ⟨hMem, hSome⟩ := List.mem_filter.mp he
      obtain ⟨hTagged, hSelected⟩ := (isSome_taggedFile_iff (hRead e hMem)).mp hSome
      obtain ⟨hKind, hSource, hWritten⟩ := mayBeTagged_iff.mp hTagged
      refine ⟨⟨entries, hEntries, ?_⟩, hSource, hWritten, hSelected⟩
      rw [← hKind]
      exact mem_sortEntries.mp hMem
    · rintro ⟨⟨entries', hEntries', hMem⟩, hSource, hWritten, hSelected⟩
      rw [hEntries] at hEntries'
      obtain rfl := Except.ok.inj hEntries'
      rw [← mem_sortEntries] at hMem
      refine ⟨⟨name, .file⟩, List.mem_filter.mpr ⟨hMem, ?_⟩, rfl⟩
      exact (isSome_taggedFile_iff (hRead _ hMem)).mpr ⟨mayBeTagged_iff.mpr ⟨rfl, hSource, hWritten⟩, hSelected⟩
  · rw [List.forall₂_map_left_iff]
    apply forall₂_filterMap
    intro e _ file hFile
    obtain ⟨-, hPath, hBytes, -⟩ := taggedFile_eq_some_iff.mp hFile
    exact ⟨hPath, hBytes⟩

theorem HoldsFiles.ne_nil_iff {files : List TaggedFile} (h : HoldsFiles fs options dir files) :
    files ≠ [] ↔ ∃ name, IsTagged fs options dir name := by
  obtain ⟨names, -, hNames, hFiles⟩ := h
  simp only [← hNames]
  cases hFiles <;> simp

end Files

end GoCommands.Walk
