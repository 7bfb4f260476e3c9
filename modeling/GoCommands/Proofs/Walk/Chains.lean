import GoCommands.Proofs.Path
import GoCommands.Proofs.Walk.Directory
import GoCommands.Proofs.Walk.Search
import Mathlib.Data.List.Shortlex

/-! # Chains of directories

The names from the start of a walk to a directory form a chain. Chains are ordered by length, and those of
one length by their names, which is the order in which a breadth-first search takes them.
-/

namespace GoCommands.Walk

/-- The directory that a chain of names leads to. -/
def directoryAt (start : Path) (chain : List Text) : Path := chain.foldl Path.join start

theorem directoryAt_concat (start : Path) (chain : List Text) (name : Text) :
    directoryAt start (chain ++ [name]) = Path.join (directoryAt start chain) name := by
  rw [directoryAt, List.foldl_append]
  rfl

section

variable {start : Path} {chain : List Text}

theorem components_directoryAt (hNames : ∀ name ∈ chain, Path.IsName name) :
    (directoryAt start chain).components = start.components ++ chain.map .name := by
  induction chain generalizing start with
  | nil => exact (List.append_nil _).symm
  | cons name chain ih =>
    calc
      (directoryAt start (name :: chain)).components
        = (Path.join start name).components ++ chain.map .name := ih fun n hn => hNames n (.tail name hn)
      _ = start.components ++ [.name name] ++ chain.map .name := by
        rw [Path.components_join start (hNames name (.head chain))]
      _ = start.components ++ (name :: chain).map .name := List.append_assoc ..

theorem components_directoryAt_inj {chain' : List Text} (hNames : ∀ name ∈ chain, Path.IsName name)
    (hNames' : ∀ name ∈ chain', Path.IsName name) :
    (directoryAt start chain).components = (directoryAt start chain').components ↔ chain = chain' := by
  rw [components_directoryAt hNames, components_directoryAt hNames', List.append_right_inj]
  exact List.map_inj_right fun a b h => Path.Component.name.inj h

end

section

variable (fs : FileSystem) (options : WalkOptions)

/-- Each name of the chain is listed as a directory behind those before it, and none is skipped. -/
inductive Reaches (start : Path) : List Text → Prop
  | here : Reaches start []
  | descend {chain : List Text} {name : Text} {entries : List DirEntry} : Reaches start chain →
    fs.entries (directoryAt start chain) = .ok entries → ⟨name, .dir⟩ ∈ entries →
    descends options.skipHidden name → Reaches start (chain ++ [name])

def subdirectoryNames (entries : List DirEntry) : List Text :=
  (entries.filter fun e => e.kind == .dir && descends options.skipHidden e.name).map DirEntry.name

/-- The chains that go one directory further. -/
def children (start : Path) (chain : List Text) : List (List Text) :=
  match fs.entries (directoryAt start chain) with
  | .error _ => []
  | .ok entries => (subdirectoryNames options (sortEntries entries)).map fun name => chain ++ [name]

/-- The directory at the end of a chain, if it has tagged files. -/
def taggedDir (start : Path) (chain : List Text) : Option TaggedDir :=
  match visit fs options (directoryAt start chain) with
  | .error _ => none
  | .ok (files, _) => if files.isEmpty then none else some ⟨directoryAt start chain, chain.length, files⟩

theorem taggedDir_eq_some_iff {start : Path} {chain : List Text} {dir : TaggedDir} :
    taggedDir fs options start chain = some dir ↔ dir.path = directoryAt start chain ∧
      dir.depth = chain.length ∧ dir.files ≠ [] ∧ ∃ dirs, visit fs options dir.path = .ok (dir.files, dirs) := by
  obtain ⟨path, depth, files⟩ := dir
  rw [taggedDir]
  cases hVisit : visit fs options (directoryAt start chain) with
  | error cause =>
    refine iff_of_false (fun h => by cases h) ?_
    rintro ⟨rfl, -, -, dirs, hFound⟩
    cases hVisit.symm.trans hFound
  | ok found =>
    obtain ⟨found, dirs⟩ := found
    simp only [Option.ite_none_left_eq_some, Option.some.injEq, TaggedDir.mk.injEq, List.isEmpty_iff]
    constructor
    · rintro ⟨hFiles, rfl, rfl, rfl⟩
      exact ⟨rfl, rfl, hFiles, dirs, hVisit⟩
    · rintro ⟨rfl, rfl, hFiles, dirs', hFound⟩
      obtain ⟨rfl, rfl⟩ := Prod.mk.inj (Except.ok.inj (hVisit.symm.trans hFound))
      exact ⟨hFiles, rfl, rfl, rfl⟩

end

section Order

instance : IsTrans (List Text) (List.Shortlex (· < ·)) where
  trans a b c hab hbc := by
    rw [List.shortlex_def] at *
    rcases hab with hab | ⟨hLength, hab⟩
    · exact .inl (by omega)
    · rcases hbc with hbc | ⟨hLength', hbc⟩
      · exact .inl (by omega)
      · exact .inr ⟨hLength.trans hLength', lt_trans (a := a) hab hbc⟩

theorem shortlex_concat_concat {a b : List Text} (h : List.Shortlex (· < ·) a b) (m n : Text) :
    List.Shortlex (· < ·) (a ++ [m]) (b ++ [n]) := by
  rcases List.shortlex_def.mp h with hLength | ⟨hLength, hLex⟩
  · exact .of_length_lt (by simpa using hLength)
  · -- Neither is a prefix of the other, so they differ before the new names.
    apply List.Shortlex.of_lex (by simpa using hLength)
    clear h
    induction hLex with
    | nil => simp at hLength
    | cons _ ih => exact .cons (ih (by simpa using hLength))
    | rel hLt => exact .rel hLt

theorem shortlex_siblings (chain : List Text) {m n : Text} (h : m < n) :
    List.Shortlex (· < ·) (chain ++ [m]) (chain ++ [n]) :=
  .of_lex (by simp) (.append_left _ (.rel h) chain)

end Order

section Search

variable (fs : FileSystem) (options : WalkOptions) (start : Path)

theorem mem_subdirectoryNames {entries : List DirEntry} {name : Text} :
    name ∈ subdirectoryNames options entries ↔ ⟨name, .dir⟩ ∈ entries ∧ descends options.skipHidden name := by
  rw [subdirectoryNames, List.mem_map]
  constructor
  · rintro ⟨⟨name, kind⟩, hMem, rfl⟩
    obtain ⟨hMem, hKept⟩ := List.mem_filter.mp hMem
    obtain ⟨hKind, hDescends⟩ := Bool.and_eq_true_iff.mp hKept
    rw [beq_iff_eq] at hKind
    exact ⟨hKind ▸ hMem, hDescends⟩
  · rintro ⟨hMem, hDescends⟩
    exact ⟨_, List.mem_filter.mpr ⟨hMem, by simpa using hDescends⟩, rfl⟩

theorem mem_children_iff {chain longer : List Text} :
    longer ∈ children fs options start chain ↔ ∃ name entries, longer = chain ++ [name] ∧
      fs.entries (directoryAt start chain) = .ok entries ∧ ⟨name, .dir⟩ ∈ entries ∧
      descends options.skipHidden name := by
  rw [children]
  cases fs.entries (directoryAt start chain) with
  | error cause => simp
  | ok entries =>
    simp only [List.mem_map, mem_subdirectoryNames, mem_sortEntries, Except.ok.injEq, @eq_comm _ longer]
    grind

theorem map_directoryAt_children {chain : List Text} {files : List TaggedFile} {dirs : List Path}
    (h : visit fs options (directoryAt start chain) = .ok (files, dirs)) :
    (children fs options start chain).map (directoryAt start) = dirs := by
  obtain ⟨entries, hEntries, -, rfl⟩ := visit_eq_ok_iff.mp h
  simp only [children, hEntries, subdirectories, subdirectoryNames, List.map_map]
  apply List.map_congr_left
  intro e _
  exact directoryAt_concat start chain e.name

theorem length_of_mem_children {chain longer : List Text} (h : longer ∈ children fs options start chain) :
    longer.length = chain.length + 1 := by
  obtain ⟨name, entries, rfl, -⟩ := (mem_children_iff fs options start).mp h
  rw [List.length_append, List.length_singleton]

theorem shortlex_children (chain longer : List Text) (h : longer ∈ children fs options start chain) :
    List.Shortlex (· < ·) chain longer :=
  .of_length_lt (by rw [length_of_mem_children fs options start h]; exact Nat.lt_succ_self _)

theorem shortlex_cousins (a b : List Text) (h : List.Shortlex (· < ·) a b)
    (a' : List Text) (ha : a' ∈ children fs options start a)
    (b' : List Text) (hb : b' ∈ children fs options start b) : List.Shortlex (· < ·) a' b' := by
  obtain ⟨m, _, rfl, -⟩ := (mem_children_iff fs options start).mp ha
  obtain ⟨n, _, rfl, -⟩ := (mem_children_iff fs options start).mp hb
  exact shortlex_concat_concat h m n

theorem pairwise_children {chain : List Text} (hNames : DistinctNames fs (directoryAt start chain)) :
    (children fs options start chain).Pairwise (List.Shortlex (· < ·)) := by
  rw [children]
  split
  · exact .nil
  · rename_i entries hEntries
    have hOrder : (subdirectoryNames options (sortEntries entries)).Pairwise (· < ·) :=
      (pairwise_sortEntries (hNames entries hEntries)).sublist (List.filter_sublist.map DirEntry.name)
    exact List.pairwise_map.mpr (hOrder.imp fun hLt => shortlex_siblings chain hLt)

variable {fs options start}

theorem Reaches.of_mem_children {chain longer : List Text} (h : Reaches fs options start chain)
    (hLonger : longer ∈ children fs options start chain) : Reaches fs options start longer := by
  obtain ⟨name, entries, rfl, hEntries, hMem, hDescends⟩ := (mem_children_iff fs options start).mp hLonger
  exact .descend h hEntries hMem hDescends

/-- A complete search takes the chains of all directories that can be reached. -/
theorem mem_iff_reaches {order : List (List Text)}
    (h : Search.Visits (children fs options start) [[]] order []) (chain : List Text) :
    chain ∈ order ↔ Reaches fs options start chain := by
  constructor
  · have hStart : ∀ chain ∈ [[]], Reaches fs options start chain := by
      intro chain hChain
      rw [List.mem_singleton.mp hChain]
      exact .here
    exact (h.forall_mem hStart fun _ hChain _ hLonger => hChain.of_mem_children hLonger).1 chain
  · intro hReaches
    -- Nothing is left, so all that was ever in the queue has been taken.
    have hOrder := h.append_eq
    rw [List.append_nil] at hOrder
    induction hReaches with
    | here => rw [hOrder]; exact List.mem_append_left _ (List.mem_singleton.mpr rfl)
    | descend _ hEntries hMem hDescends ih =>
      rw [hOrder]
      refine List.mem_append_right _ (List.mem_flatMap.mpr ⟨_, ih, ?_⟩)
      exact (mem_children_iff fs options start).mpr ⟨_, _, rfl, hEntries, hMem, hDescends⟩

theorem pairwise_shortlex {order : List (List Text)}
    (h : Search.Visits (children fs options start) [[]] order [])
    (hNames : ∀ chain, Reaches fs options start chain → DistinctNames fs (directoryAt start chain)) :
    order.Pairwise (List.Shortlex (· < ·)) := by
  apply h.pairwise (shortlex_children fs options start) (shortlex_cousins fs options start)
    (List.pairwise_singleton _ _)
  · intro a ha b hb b' hb'
    rw [List.mem_singleton.mp ha, ← List.mem_singleton.mp hb]
    exact shortlex_children fs options start b b' hb'
  · intro chain hChain
    exact pairwise_children fs options start (hNames chain ((mem_iff_reaches h chain).mp hChain))

end Search

end GoCommands.Walk
