import GoCommands.Proofs.Walk.Observed
import GoCommands.Proofs.Wrapper.Replacement

/-! # Discovery after a run

A run adds an entry or replaces the file of one. Its name starts like those of all generated files for the
tag, so a walk for this tag does not look at it.
-/

namespace GoCommands

namespace Generate

/-- The output is a generated file of the tag. -/
theorem startsWith_outputName (options : GenerateOptions) (package : Text) :
    Text.startsWith (Walk.generatedStart (effectiveTag options)) (outputName options package) := by
  have hAfter := Text.after?_append (Walk.generatedStart (effectiveTag options)) [] (package ++ Walk.sourceExtension)
  rw [List.append_nil, ← List.append_assoc] at hAfter
  rw [Text.startsWith, outputName, hAfter]
  rfl

theorem mayBeTagged_outputName {options : GenerateOptions} {walk : WalkOptions} (package : Text)
    (hTag : walk.buildTag = effectiveTag options) :
    Walk.mayBeTagged walk ⟨outputName options package, .file⟩ = false := by
  rw [Walk.mayBeTagged, hTag, startsWith_outputName]
  exact Bool.and_false _

namespace Wrote

variable {s s' : MemoryFiles} {options : GenerateOptions} {package : Text} {walk : WalkOptions}
  (h : Wrote s s' options package) (hAtom : AtomTag options) (hTag : walk.buildTag = effectiveTag options)
include h hAtom hTag

theorem not_looksAt_output :
    Walk.looksAt walk (MemoryFiles.entryOf .file (outputPath options package).normalize) = false := by
  have hFile : Path.fileName (outputPath options package).normalize = some (outputName options package) :=
    Path.fileName_normalize_join options.dir (h.isName hAtom)
  have hEntry : MemoryFiles.entryOf .file (outputPath options package).normalize =
      ⟨outputName options package, .file⟩ := by
    rw [MemoryFiles.entryOf, hFile]
    rfl
  rw [hEntry, Walk.looksAt, mayBeTagged_outputName package hTag]
  rfl

/-- The output takes the place of a file or stands behind all others. -/
theorem filter_files (dir : Path) :
    ((((s.putFile (outputPath options package).normalize
        ⟨Utf8.encode (outputText (FileStore.view s) options package), fileMode⟩).files.map Prod.fst).filter
      fun f => f.directory == some dir).map (MemoryFiles.entryOf .file)).filter (Walk.looksAt walk) =
    (((s.files.map Prod.fst).filter fun f => f.directory == some dir).map (MemoryFiles.entryOf .file)).filter
      (Walk.looksAt walk) := by
  rw [MemoryFiles.paths_putFile]
  split
  · rfl
  · rw [List.filter_append, List.map_append, List.filter_append, List.filter_singleton, Bool.cond_eq_ite]
    split
    · rw [List.map_singleton, List.filter_singleton, h.not_looksAt_output hAtom hTag, cond_false]
      exact List.append_nil _
    · exact List.append_nil _

theorem entries_filter (dir : Path) : (s'.entries dir).map (List.filter (Walk.looksAt walk)) =
    (s.entries dir).map (List.filter (Walk.looksAt walk)) := by
  have hWrite : s.writeFile (Path.join options.dir (outputName options package))
      (Utf8.encode (outputText (FileStore.view s) options package)) fileMode = (s', .ok ()) := h.written
  have hFiles := h.filter_files hAtom hTag dir.normalize
  rw [MemoryFiles.eq_putFile_of_writeFile hWrite, MemoryFiles.entries, MemoryFiles.entries, MemoryFiles.isDir,
    MemoryFiles.isDir, MemoryFiles.dirs_putFile]
  split
  · apply congrArg Except.ok
    rw [List.filter_append, List.filter_append]
    exact congrArg _ hFiles
  · rfl

theorem bytes_eq {dir : Path} {entries : List DirEntry} (hEntries : s.entries dir = .ok entries) {e : DirEntry}
    (he : e ∈ entries) (hTagged : Walk.mayBeTagged walk e) :
    s'.bytes (Path.join dir e.name) = s.bytes (Path.join dir e.name) := by
  obtain ⟨hKind, hSource, -⟩ := Walk.mayBeTagged_iff.mp hTagged
  have hName : Path.IsName e.name := by
    refine isName_of_isSource hEntries he ?_
    rw [DirectoryScan.isSource, hKind, hSource]
    rfl
  have hPlace : (outputPath options package).normalize ≠ (Path.join dir e.name).normalize := by
    intro hSame
    have hOutput : outputName options package = e.name :=
      Path.eq_of_normalize_join_eq (h.isName hAtom) hName hSame
    have hEntry : e = ⟨outputName options package, .file⟩ := by
      rw [hOutput, ← hKind]
    rw [hEntry, mayBeTagged_outputName package hTag] at hTagged
    cases hTagged
  rw [h.stores.bytes_eq, if_neg hPlace]

theorem seesSame : Walk.SeesSame walk (FileStore.view s) (FileStore.view s') :=
  ⟨h.entries_filter hAtom hTag, fun _ _ hEntries _ he hTagged => h.bytes_eq hAtom hTag hEntries he hTagged⟩

end Wrote

end Generate

/-- A run that writes a file for a tag, a single atom or none for the default tag, leaves every discovery
with this tag as it was: from every start, for one package or several, with hidden directories or without,
and whether it finds models, fails or does not end. -/
theorem discover_generate {s s' : MemoryFiles} {options : GenerateOptions} {path : Path}
    (hAtom : Generate.AtomTag options) (hRun : generate s options = (s', .ok (some path)))
    {search : DiscoverOptions} (hTag : search.walk.buildTag = Generate.effectiveTag options) (fuel : Nat) :
    discover fuel (FileStore.view s') search = discover fuel (FileStore.view s) search := by
  obtain ⟨package, -, hWrote⟩ := Generate.exists_wrote hRun
  exact discover_eq_of_seesSame (hWrote.seesSame hAtom hTag) fuel

/-- A directory that a discovery finds. -/
def taskFiles : MemoryFiles :=
  MemoryFiles.empty.addFile "ops/a.go".toList
    (Utf8.encode "//go:build gantry\n\npackage ops\n\nfunc Build() {}\n".toList)

def taskOptions : GenerateOptions := ⟨"ops".toList, some "gantry".toList, true⟩

def taskPath : Path := "ops/generated_gantry_ops.go".toList

def taskScan : DirectoryScan where
  sourceFiles := ["ops/a.go".toList]
  packageName := some "ops".toList
  typeNames := []
  claimedNames := []
  functions := [⟨"Build".toList, none, ⟨false, false⟩⟩]

theorem read_taskFiles :
    DirectoryScan.ofDirectory taskFiles.fileSystem "ops".toList (some "gantry".toList) = .ok taskScan ∧
      (Go.SourceFile.parse (Wrapper.unit "ops".toList (some "gantry".toList) taskScan.functions)).isSome ∧
      Generate.outputPath taskOptions "ops".toList = taskPath ∧
      (Path.normalize taskPath).directory.any taskFiles.isDir := by
  decide +kernel

def wrappedTaskFiles : MemoryFiles :=
  (taskFiles.writeFile taskPath (Utf8.encode (Layout.normalize
    (Wrapper.unit "ops".toList (some "gantry".toList) taskScan.functions))) Generate.fileMode).1

theorem generate_taskFiles : generate taskFiles taskOptions = (wrappedTaskFiles, .ok (some taskPath)) := by
  obtain ⟨hScan, hParse, hPath, hDirectory⟩ := read_taskFiles
  exact Generate.generate_of_unclaimed rfl hScan (by decide) rfl rfl rfl (by decide) (by decide) hParse hPath
    (MemoryFiles.writeFile_of_isDir hDirectory _ _)

/-- The discovery from the working directory finds the one package, with the wrappers as without. -/
theorem discover_generate_taskFiles :
    (discover 2 (FileStore.view taskFiles) .standard).isSome ∧
      discover 2 (FileStore.view wrappedTaskFiles) .standard = discover 2 (FileStore.view taskFiles) .standard := by
  have hAtom : Generate.AtomTag taskOptions := by
    intro tag hTag
    cases hTag
    exact ⟨by decide, List.all_eq_true.mp (by decide)⟩
  exact ⟨by decide +kernel, discover_generate hAtom generate_taskFiles rfl 2⟩

end GoCommands
