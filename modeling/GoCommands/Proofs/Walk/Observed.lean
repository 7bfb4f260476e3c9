import GoCommands.Discovery
import GoCommands.Proofs.Walk.Directory

/-! # What a walk looks at

A walk looks at the directories among the entries of a directory and at the files that can be tagged by
their name. Where two file systems agree on these, walks and discoveries agree.
-/

namespace GoCommands

namespace Walk

def looksAt (options : WalkOptions) (e : DirEntry) : Bool := e.kind == .dir || mayBeTagged options e

/-- The entries that a walk looks at are the same, and so are the bytes of the files among them. -/
structure SeesSame (options : WalkOptions) (fs fs' : FileSystem) : Prop where
  entries : ∀ dir, (fs'.entries dir).map (List.filter (looksAt options)) =
    (fs.entries dir).map (List.filter (looksAt options))
  bytes : ∀ dir entries, fs.entries dir = .ok entries → ∀ e ∈ entries, mayBeTagged options e →
    fs'.bytes (Path.join dir e.name) = fs.bytes (Path.join dir e.name)

variable {fs fs' : FileSystem} {options : WalkOptions}

theorem readTagged_congr {path : Path} (h : fs'.bytes path = fs.bytes path) (tag : Option Text) :
    readTagged fs' path tag = readTagged fs path tag := by
  rw [readTagged, readTagged, h]

theorem taggedFiles_congr {dir : Path} {entries : List DirEntry}
    (h : ∀ e ∈ entries, mayBeTagged options e →
      fs'.bytes (Path.join dir e.name) = fs.bytes (Path.join dir e.name)) :
    taggedFiles fs' options dir entries = taggedFiles fs options dir entries := by
  induction entries with
  | nil => rfl
  | cons e rest ih =>
    obtain ⟨hFirst, hRest⟩ := List.forall_mem_cons.mp h
    rw [taggedFiles, taggedFiles, ih hRest]
    split
    · rename_i hName
      simp only [readTagged_congr (hFirst hName)]
    · rfl

theorem taggedFiles_filter_looksAt (dir : Path) (entries : List DirEntry) :
    taggedFiles fs options dir (entries.filter (looksAt options)) = taggedFiles fs options dir entries := by
  induction entries with
  | nil => rfl
  | cons e rest ih =>
    cases hLooks : looksAt options e with
    | true => rw [List.filter_cons_of_pos hLooks, taggedFiles, taggedFiles, ih]
    | false =>
      have hName : mayBeTagged options e = false := (Bool.or_eq_false_iff.mp hLooks).2
      rw [List.filter_cons_of_neg (Bool.eq_false_iff.mp hLooks), ih, taggedFiles, hName]
      rfl

theorem subdirectories_filter_looksAt (dir : Path) (entries : List DirEntry) :
    subdirectories options dir (entries.filter (looksAt options)) = subdirectories options dir entries := by
  rw [subdirectories, subdirectories, List.filter_filter]
  congr 2
  funext e
  cases hKind : e.kind == .dir <;> simp [looksAt, hKind]

/-- The same entries are looked at before and after they are sorted. -/
theorem filter_sortEntries (entries : List DirEntry) :
    (sortEntries entries).filter (looksAt options) = sortEntries (entries.filter (looksAt options)) :=
  Text.filter_mergeSort DirEntry.name entries _

namespace SeesSame

variable (h : SeesSame options fs fs')
include h

theorem visit_eq (dir : Path) : visit fs' options dir = visit fs options dir := by
  have hEntries := h.entries dir
  rw [visit, visit]
  cases hList : fs.entries dir with
  | error cause =>
    rw [hList] at hEntries
    cases hList' : fs'.entries dir with
    | error cause' =>
      rw [hList'] at hEntries
      cases hEntries
      rfl
    | ok entries' =>
      rw [hList'] at hEntries
      cases hEntries
  | ok entries =>
    rw [hList] at hEntries
    cases hList' : fs'.entries dir with
    | error cause' =>
      rw [hList'] at hEntries
      cases hEntries
    | ok entries' =>
      rw [hList'] at hEntries
      have hSorted : (sortEntries entries').filter (looksAt options) =
          (sortEntries entries).filter (looksAt options) := by
        rw [filter_sortEntries, filter_sortEntries, Except.ok.inj hEntries]
      have hFiles : taggedFiles fs' options dir (sortEntries entries) =
          taggedFiles fs options dir (sortEntries entries) :=
        taggedFiles_congr fun e he => h.bytes dir entries hList e (mem_sortEntries.mp he)
      simp only
      rw [← taggedFiles_filter_looksAt dir (sortEntries entries'),
        ← subdirectories_filter_looksAt dir (sortEntries entries'), hSorted, taggedFiles_filter_looksAt,
        subdirectories_filter_looksAt, hFiles]

end SeesSame

/-- A run only depends on what the visits of directories give. -/
theorem run_congr (h : ∀ dir, visit fs' options dir = visit fs options dir) (fuel : Nat) (s : State) :
    run fs' options fuel s = run fs options fuel s := by
  induction fuel generalizing s with
  | zero =>
    obtain ⟨_ | ⟨⟨dir, depth⟩, queue⟩, found⟩ := s <;> rfl
  | succ fuel ih =>
    obtain ⟨_ | ⟨⟨dir, depth⟩, queue⟩, found⟩ := s
    · rfl
    · rw [run, run, h]
      simp only [ih]

end Walk

theorem walk_congr {fs fs' : FileSystem} {options : WalkOptions}
    (h : ∀ dir, Walk.visit fs' options dir = Walk.visit fs options dir) (fuel : Nat) (start : Path) :
    walk fuel fs' start options = walk fuel fs start options := by
  rw [walk, walk, Walk.run_congr h]

theorem discover_congr {fs fs' : FileSystem} {options : DiscoverOptions}
    (h : ∀ dir, Walk.visit fs' options.walk dir = Walk.visit fs options.walk dir) (fuel : Nat) :
    discover fuel fs' options = discover fuel fs options := by
  rw [discover, discover, walk_congr h]

theorem discover_eq_of_seesSame {fs fs' : FileSystem} {options : DiscoverOptions}
    (h : Walk.SeesSame options.walk fs fs') (fuel : Nat) :
    discover fuel fs' options = discover fuel fs options :=
  discover_congr h.visit_eq fuel

end GoCommands
