import GoCommands.Proofs.Package.CommandNames
import GoCommands.Proofs.Path.Order
import Mathlib.Data.List.Nodup

/-! # The files of a package

The assembly divides the commands among the files that declare them. The division only depends on the paths
as components, and each part keeps the order of the whole list.
-/

namespace GoCommands

/-- Parts that are chosen by keys make up the whole list where each element has one key. -/
theorem flatMap_filter_perm {α κ : Type} (chosen : α → κ → Bool) {keys : List κ} {as : List α}
    (hCovered : ∀ a ∈ as, ∃ k ∈ keys, chosen a k)
    (hApart : keys.Pairwise fun k l => ∀ a ∈ as, chosen a k → chosen a l = false) :
    (keys.flatMap fun k => as.filter (chosen · k)).Perm as := by
  -- The first key takes its part away, and the other keys divide what is left.
  induction keys generalizing as with
  | nil =>
    have hNone : as = [] := List.eq_nil_iff_forall_not_mem.mpr fun a ha => by
      obtain ⟨k, hk, -⟩ := hCovered a ha
      cases hk
    rw [hNone]
    exact .refl _
  | cons k keys ih =>
    obtain ⟨hFirst, hKeys⟩ := List.pairwise_cons.mp hApart
    have hRest : (keys.flatMap fun l => (as.filter fun a => !chosen a k).filter (chosen · l)).Perm
        (as.filter fun a => !chosen a k) := by
      apply ih
      · intro a ha
        obtain ⟨ha, hNot⟩ := List.mem_filter.mp ha
        obtain ⟨l, hl, hChosen⟩ := hCovered a ha
        rcases List.mem_cons.mp hl with rfl | hl
        · rw [hChosen] at hNot
          cases hNot
        · exact ⟨l, hl, hChosen⟩
      · exact hKeys.imp fun h a ha => h a (List.mem_of_mem_filter ha)
    have hSame : (keys.flatMap fun l => (as.filter fun a => !chosen a k).filter (chosen · l)) =
        keys.flatMap fun l => as.filter (chosen · l) := by
      apply List.flatMap_congr
      intro l hl
      rw [List.filter_filter]
      apply List.filter_congr
      intro a ha
      cases hChosen : chosen a k with
      | false => rw [Bool.not_false, Bool.and_true]
      | true => rw [hFirst l hl a ha hChosen, Bool.false_and]
    rw [hSame] at hRest
    rw [List.flatMap_cons]
    exact (hRest.append_left _).trans (List.filter_append_perm (chosen · k) as)

/-- The files are in strict order, and each lists the commands that it declares and no others, as often as the
package has them and in the order of their identifiers. -/
structure PackageModel.Indexed (m : PackageModel) : Prop where
  ascending : m.files.Pairwise fun f g => f.path.rank < g.path.rank
  nonempty : ∀ f ∈ m.files, f.commands ≠ []
  sorted : ∀ f ∈ m.files, f.commands.Pairwise fun a b => a.name ≤ b.name
  declared : ∀ f ∈ m.files, ∀ c ∈ f.commands, c.file.same f.path
  occurs : ∀ c ∈ m.commands, ∃ f ∈ m.files, f.commands.count c = m.commands.count c ∧
    ∀ g ∈ m.files, c ∈ g.commands → g = f
  complete : (m.files.flatMap FileInfo.commands).Perm m.commands

namespace PackageScan

theorem exists_of_mem_filesOf {commands : List CommandInfo} {p : Path} (h : p ∈ filesOf commands) :
    ∃ c ∈ commands, c.file = p := by
  induction commands with
  | nil => cases h
  | cons c commands ih =>
    rw [filesOf] at h
    rcases List.mem_cons.mp h with rfl | h
    · exact ⟨c, .head _, rfl⟩
    · obtain ⟨d, hd, hFile⟩ := ih (List.mem_of_mem_filter h)
      exact ⟨d, .tail _ hd, hFile⟩

theorem exists_mem_filesOf {commands : List CommandInfo} {c : CommandInfo} (h : c ∈ commands) :
    ∃ p ∈ filesOf commands, c.file.same p := by
  induction commands with
  | nil => cases h
  | cons d commands ih =>
    rw [filesOf]
    rcases List.mem_cons.mp h with rfl | h
    · exact ⟨c.file, .head _, (Path.same_iff _ _).mpr rfl⟩
    · obtain ⟨p, hp, hSame⟩ := ih h
      -- A path that the first command has already given is listed as the path of this command.
      by_cases hFirst : p.same d.file
      · refine ⟨d.file, .head _, ?_⟩
        rw [Path.same_iff] at *
        exact hSame.trans hFirst
      · exact ⟨p, .tail _ (List.mem_filter.mpr ⟨hp, by simpa using hFirst⟩), hSame⟩

theorem nodup_components_filesOf (commands : List CommandInfo) :
    ((filesOf commands).map Path.components).Nodup := by
  induction commands with
  | nil => exact .nil
  | cons c commands ih =>
    rw [filesOf, List.map_cons, List.nodup_cons]
    refine ⟨fun hMem => ?_, ih.sublist (List.filter_sublist.map _)⟩
    obtain ⟨p, hp, hComponents⟩ := List.mem_map.mp hMem
    have hNot := (List.mem_filter.mp hp).2
    rw [(Path.same_iff p c.file).mpr hComponents] at hNot
    cases hNot

/-- The paths of the files, sorted. -/
def indexedPaths (commands : List CommandInfo) : List Path := (filesOf commands).mergeSort Path.le

theorem mem_indexByFile_iff {commands : List CommandInfo} {f : FileInfo} : f ∈ indexByFile commands ↔
    ∃ p ∈ indexedPaths commands, f = ⟨p, p.fileName.getD p, commands.filter fun c => c.file.same p⟩ := by
  rw [indexByFile, ← indexedPaths, List.mem_map]
  exact exists_congr fun p => and_congr_right fun _ => eq_comm

theorem mem_indexedPaths {commands : List CommandInfo} {p : Path} :
    p ∈ indexedPaths commands ↔ p ∈ filesOf commands :=
  List.mem_mergeSort

/-- A command has one of the listed paths. -/
theorem exists_indexedPath {commands : List CommandInfo} {c : CommandInfo} (h : c ∈ commands) :
    ∃ p ∈ indexedPaths commands, c.file.same p ∧ ∀ q ∈ indexedPaths commands, c.file.same q → q = p := by
  obtain ⟨p, hp, hSame⟩ := exists_mem_filesOf h
  refine ⟨p, mem_indexedPaths.mpr hp, hSame, fun q hq hOther => ?_⟩
  rw [mem_indexedPaths] at hq
  rw [Path.same_iff] at hSame hOther
  exact List.inj_on_of_nodup_map (nodup_components_filesOf commands) hq hp (hOther.symm.trans hSame)

theorem pairwise_indexedPaths (commands : List CommandInfo) :
    (indexedPaths commands).Pairwise fun p q => p.rank < q.rank :=
  Path.pairwise_lt_mergeSort (nodup_components_filesOf commands)

theorem indexByFile_perm (commands : List CommandInfo) :
    ((indexByFile commands).flatMap FileInfo.commands).Perm commands := by
  rw [indexByFile, ← indexedPaths, List.flatMap_map]
  refine flatMap_filter_perm (fun (c : CommandInfo) p => c.file.same p) ?_ ?_
  · intro c hc
    obtain ⟨p, hp, hSame, -⟩ := exists_indexedPath hc
    exact ⟨p, hp, hSame⟩
  · refine (pairwise_indexedPaths commands).imp fun {p q} hLess c hc hSame => ?_
    rw [← Bool.not_eq_true, Path.same_iff]
    rw [Path.same_iff] at hSame
    intro hOther
    exact hLess.ne ((Path.rank_eq_iff p q).mpr ((Path.same_iff p q).mpr (hSame.symm.trans hOther)))

theorem occurs_indexByFile {commands : List CommandInfo} {c : CommandInfo} (h : c ∈ commands) :
    ∃ f ∈ indexByFile commands, f.commands.count c = commands.count c ∧
      ∀ g ∈ indexByFile commands, c ∈ g.commands → g = f := by
  obtain ⟨p, hp, hSame, hOnly⟩ := exists_indexedPath h
  refine ⟨_, mem_indexByFile_iff.mpr ⟨p, hp, rfl⟩, List.count_filter hSame, fun g hg hc => ?_⟩
  obtain ⟨q, hq, rfl⟩ := mem_indexByFile_iff.mp hg
  rw [hOnly q hq (List.mem_filter.mp hc).2]

/-- The files of a model that the assembly accepts divide its commands exactly. -/
theorem finish_indexed {s : PackageScan} {m : PackageModel} (h : s.finish = .ok m) : m.Indexed := by
  obtain ⟨-, -, rfl⟩ := (finish_eq_ok_iff s m).mp h
  have hFile : ∀ f ∈ s.model.files, ∃ p ∈ indexedPaths s.model.commands,
      f = ⟨p, p.fileName.getD p, s.model.commands.filter fun c => c.file.same p⟩ :=
    fun f hf => mem_indexByFile_iff.mp hf
  refine ⟨?_, ?_, ?_, ?_, fun c hc => occurs_indexByFile hc, indexByFile_perm s.model.commands⟩
  · exact List.pairwise_map.mpr (pairwise_indexedPaths s.model.commands)
  · intro f hf hEmpty
    obtain ⟨p, hp, rfl⟩ := hFile f hf
    obtain ⟨c, hc, rfl⟩ := exists_of_mem_filesOf (mem_indexedPaths.mp hp)
    exact List.filter_eq_nil_iff.mp hEmpty c hc ((Path.same_iff _ _).mpr rfl)
  · intro f hf
    obtain ⟨p, -, rfl⟩ := hFile f hf
    exact s.le_of_sorted.filter _
  · intro f hf c hc
    obtain ⟨p, -, rfl⟩ := hFile f hf
    exact (List.mem_filter.mp hc).2

/-- Two commands of one identifier stand in the files that declare them. -/
theorem finish_indexed_oneIdentifier : oneIdentifier.finish = .ok oneIdentifier.model ∧
    oneIdentifier.model.files.map FileInfo.path = ["ops/a.go".toList, "ops/b.go".toList] ∧
    oneIdentifier.model.Indexed := by
  have hFound : oneIdentifier.found = [⟨"Build".toList, .type, "ops/a.go".toList, [], ⟨false, false⟩⟩,
      ⟨"Build".toList, .function, "ops/b.go".toList, [], ⟨false, false⟩⟩] := by
    rw [oneIdentifier_eq]
    rfl
  refine ⟨finish_oneIdentifier, ?_, finish_indexed finish_oneIdentifier⟩
  rw [model, hFound, List.mergeSort_of_pairwise (by decide)]
  show (indexByFile _).map FileInfo.path = _
  rw [indexByFile, List.mergeSort_of_pairwise (by decide)]
  rfl

end PackageScan

end GoCommands
