import GoCommands.Proofs.Walk.Directory
import GoCommands.Proofs.Wrapper.SecondRun

/-! # What a run changes

A run changes nothing or stores one file. This file takes the place of a scanned one where the directory
has a source file under the name of the output, and then what was declared there is lost.
-/

namespace GoCommands

namespace Generate

theorem eq_of_generate {s s' : MemoryFiles} {options : GenerateOptions}
    {result : Except GenerateError (Option Path)} (h : generate s options = (s', result))
    (hNone : ∀ path, result ≠ .ok (some path)) : s' = s := by
  rw [generate] at h
  split at h
  · exact (Prod.mk.inj h).1.symm
  · exact (Prod.mk.inj h).1.symm
  · split at h
    · rename_i hWrite
      rw [← (Prod.mk.inj h).1]
      exact MemoryFiles.eq_of_writeFile_error hWrite
    · exact absurd (Prod.mk.inj h).2.symm (hNone _)

theorem bytes_of_mem_scannedFiles {fs : FileSystem} {options : GenerateOptions} {file : TaggedFile}
    (h : file ∈ scannedFiles fs options) : fs.bytes file.path = .ok (Utf8.encode file.content) := by
  rw [scannedFiles] at h
  split at h
  · obtain ⟨e, -, hSource⟩ := List.mem_filterMap.mp h
    obtain ⟨-, text, hRead, rfl⟩ := (DirectoryScan.source?_eq_some_iff _ _ _ _ _).mp hSource
    exact (Walk.readTagged_eq_some_iff.mp hRead).1
  · cases h

namespace Wrote

variable {s s' : MemoryFiles} {options : GenerateOptions} {package : Text}
  (h : Wrote s s' options package)
include h

theorem stores : MemoryFiles.Stores s s' (outputPath options package).normalize
    ⟨Utf8.encode (outputText (FileStore.view s) options package), fileMode⟩ := by
  have hWrite : s.writeFile (Path.join options.dir (outputName options package))
      (Utf8.encode (outputText (FileStore.view s) options package)) fileMode = (s', .ok ()) := h.written
  exact MemoryFiles.stores_of_writeFile hWrite

theorem content_ne (hTag : ∀ tag ∈ options.buildTag, '\n' ∉ tag) {file : TaggedFile}
    (hFile : file ∈ scannedFiles (FileStore.view s) options) :
    file.content ≠ outputText (FileStore.view s) options package := by
  intro hContent
  have hNames : ∀ f ∈ wrappedFunctions (FileStore.view s) options,
      Go.IsWord f.name ∧ CommandName.isExported f.name := fun _ hf => names_wrappedFunctions hf
  obtain ⟨unit, hParse, -, hSpecs, -⟩ := Wrapper.parse_normalize_unit h.isWord_package hTag hNames
  -- A scanned file with this text declares a wrapper type, and the run has found all of these free.
  obtain ⟨f, hf⟩ := List.exists_mem_of_ne_nil _ h.nonempty
  have hUnit : (file.path, unit) ∈ TaggedFile.parsed (scannedFiles (FileStore.view s) options) := by
    refine (TaggedFile.mem_parsed _ _).mpr ⟨file, hFile, ?_, rfl⟩
    rw [hContent]
    exact hParse
  apply h.fresh f hf
  refine (DirectoryScan.mem_typeNames_ofFiles _ _).mpr ⟨_, hUnit, Wrapper.wrapperSpec f, ?_, rfl⟩
  rw [hSpecs]
  exact List.mem_map_of_mem hf

/-- A scanned file keeps its text exactly if the output is stored elsewhere. -/
theorem bytes_iff (hTag : ∀ tag ∈ options.buildTag, '\n' ∉ tag) {file : TaggedFile}
    (hFile : file ∈ scannedFiles (FileStore.view s) options) :
    s'.bytes file.path = .ok (Utf8.encode file.content) ↔
      file.path.normalize ≠ (outputPath options package).normalize := by
  rw [h.stores.bytes_eq]
  split
  · rename_i hPlace
    refine iff_of_false (fun hBytes => h.content_ne hTag hFile ?_) fun hOther => hOther hPlace.symm
    have hDecode := Utf8.decode_encode file.content
    rw [← Except.ok.inj hBytes, Utf8.decode_encode] at hDecode
    exact (Except.ok.inj hDecode).symm
  · rename_i hPlace
    exact iff_of_true (bytes_of_mem_scannedFiles hFile) fun hSame => hPlace hSame.symm

theorem normalize_eq_iff (hTag : AtomTag options) {file : TaggedFile}
    (hFile : file ∈ scannedFiles (FileStore.view s) options) :
    file.path.normalize = (outputPath options package).normalize ↔ file.path = outputPath options package := by
  refine ⟨fun hSame => ?_, congrArg Path.normalize⟩
  obtain ⟨entries, hEntries, -⟩ := h.readable
  obtain ⟨e, he, hSource⟩ := (mem_scannedFiles hEntries file).mp hFile
  obtain ⟨hIsSource, text, -, rfl⟩ := (DirectoryScan.source?_eq_some_iff _ _ _ _ _).mp hSource
  have hName : e.name = outputName options package :=
    Path.eq_of_normalize_join_eq (isName_of_isSource hEntries he hIsSource) (h.isName hTag) hSame
  exact congrArg (Path.join options.dir) hName

end Wrote

end Generate

/-- A run that gives no path changes nothing. One that gives a path stores the formatted unit there and
changes nothing else. All scanned files keep their text exactly if none of them is in the place of the
output, which for no tag or an atom as tag is to say that none has its path. -/
theorem generate_keeps_iff {s s' : MemoryFiles} {options : GenerateOptions}
    {result : Except GenerateError (Option Path)} (hRun : generate s options = (s', result)) :
    ((∀ path, result ≠ .ok (some path)) → s' = s) ∧
    ∀ path, result = .ok (some path) →
      let scanned := Generate.scannedFiles (FileStore.view s) options
      let functions := Generate.wrappedFunctions (FileStore.view s) options
      ∃ package text, path = Generate.outputPath options package ∧
        (DirectoryScan.ofFiles scanned).packageName = some package ∧
        Layout.format? (Wrapper.unit package options.buildTag functions) = some text ∧
        MemoryFiles.Stores s s' path.normalize ⟨Utf8.encode text, Generate.fileMode⟩ ∧
        ((∀ tag ∈ options.buildTag, '\n' ∉ tag) →
          ((∀ file ∈ scanned, s'.bytes file.path = .ok (Utf8.encode file.content)) ↔
            ∀ file ∈ scanned, file.path.normalize ≠ path.normalize)) ∧
        (Generate.AtomTag options →
          ((∀ file ∈ scanned, s'.bytes file.path = .ok (Utf8.encode file.content)) ↔
            ∀ file ∈ scanned, file.path ≠ path)) := by
  refine ⟨Generate.eq_of_generate hRun, ?_⟩
  rintro path rfl
  obtain ⟨package, rfl, hWrote, hFormat⟩ := Generate.exists_wrote_formatted hRun
  have hKept : (∀ tag ∈ options.buildTag, '\n' ∉ tag) →
      ((∀ file ∈ Generate.scannedFiles (FileStore.view s) options,
          s'.bytes file.path = .ok (Utf8.encode file.content)) ↔
        ∀ file ∈ Generate.scannedFiles (FileStore.view s) options,
          file.path.normalize ≠ (Generate.outputPath options package).normalize) :=
    fun hTag => forall₂_congr fun _ hFile => hWrote.bytes_iff hTag hFile
  refine ⟨package, _, rfl, hWrote.packageName, hFormat, hWrote.stores, hKept, fun hTag => ?_⟩
  rw [hKept hTag.newline_not_mem]
  exact forall₂_congr fun _ hFile => not_congr (hWrote.normalize_eq_iff hTag hFile)

/-- A file under the name of the output, written by hand. -/
def handwrittenFiles : MemoryFiles :=
  MemoryFiles.empty.addFile "ops/generated_gantry_ops.go".toList
    (Utf8.encode "package ops\n\nfunc Build() {}\n".toList)

def handwrittenOptions : GenerateOptions := ⟨"ops".toList, none, false⟩

def handwrittenPath : Path := "ops/generated_gantry_ops.go".toList

def handwrittenScan : DirectoryScan where
  sourceFiles := [handwrittenPath]
  packageName := some "ops".toList
  typeNames := []
  claimedNames := []
  functions := [⟨"Build".toList, none, ⟨false, false⟩⟩]

theorem read_handwrittenFiles :
    DirectoryScan.ofDirectory handwrittenFiles.fileSystem "ops".toList none = .ok handwrittenScan ∧
      (Go.SourceFile.parse (Wrapper.unit "ops".toList none handwrittenScan.functions)).isSome ∧
      Generate.outputPath handwrittenOptions "ops".toList = handwrittenPath ∧
      (Path.normalize handwrittenPath).directory.any handwrittenFiles.isDir := by
  decide +kernel

def replacedFiles : MemoryFiles :=
  (handwrittenFiles.writeFile handwrittenPath (Utf8.encode (Layout.normalize
    (Wrapper.unit "ops".toList none handwrittenScan.functions))) Generate.fileMode).1

theorem generate_handwrittenFiles :
    generate handwrittenFiles handwrittenOptions = (replacedFiles, .ok (some handwrittenPath)) := by
  obtain ⟨hScan, hParse, hPath, hDirectory⟩ := read_handwrittenFiles
  exact Generate.generate_of_unclaimed rfl hScan (by decide) rfl rfl rfl (by decide) (by decide) hParse hPath
    (MemoryFiles.writeFile_of_isDir hDirectory _ _)

/-- A run writes over a file that it scanned. -/
theorem exists_replaced : ∃ (s s' : MemoryFiles) (options : GenerateOptions) (path : Path),
    generate s options = (s', .ok (some path)) ∧
      ∃ file ∈ Generate.scannedFiles (FileStore.view s) options,
        file.path = path ∧ s'.bytes file.path ≠ .ok (Utf8.encode file.content) := by
  obtain ⟨-, -, hFiles⟩ := (Generate.ofDirectory_eq_iff _ handwrittenOptions _).mp read_handwrittenFiles.1
  obtain ⟨package, hPath, hWrote⟩ := Generate.exists_wrote generate_handwrittenFiles
  have hSources : handwrittenPath ∈ (DirectoryScan.ofFiles
      (Generate.scannedFiles handwrittenFiles.fileSystem handwrittenOptions)).sourceFiles := by
    rw [← hFiles]
    exact .head _
  rw [DirectoryScan.sourceFiles_ofFiles] at hSources
  obtain ⟨unit, hUnit, hUnitPath⟩ := List.mem_map.mp hSources
  obtain ⟨file, hFile, -, hFilePath⟩ := (TaggedFile.mem_parsed _ unit).mp hUnit
  have hPlace : file.path = handwrittenPath := hFilePath.trans hUnitPath
  refine ⟨_, _, _, _, generate_handwrittenFiles, file, hFile, hPlace, fun hKept => ?_⟩
  have hTag : ∀ tag ∈ handwrittenOptions.buildTag, '\n' ∉ tag := by
    intro tag hTag
    cases hTag
  refine (hWrote.bytes_iff hTag hFile).mp hKept ?_
  rw [hPlace, hPath]

theorem generate_keeps_iff_handwrittenFiles :
    let scanned := Generate.scannedFiles (FileStore.view handwrittenFiles) handwrittenOptions
    let functions := Generate.wrappedFunctions (FileStore.view handwrittenFiles) handwrittenOptions
    ∃ package text, handwrittenPath = Generate.outputPath handwrittenOptions package ∧
      (DirectoryScan.ofFiles scanned).packageName = some package ∧
      Layout.format? (Wrapper.unit package handwrittenOptions.buildTag functions) = some text ∧
      MemoryFiles.Stores handwrittenFiles replacedFiles handwrittenPath.normalize
        ⟨Utf8.encode text, Generate.fileMode⟩ ∧
      ((∀ tag ∈ handwrittenOptions.buildTag, '\n' ∉ tag) →
        ((∀ file ∈ scanned, replacedFiles.bytes file.path = .ok (Utf8.encode file.content)) ↔
          ∀ file ∈ scanned, file.path.normalize ≠ handwrittenPath.normalize)) ∧
      (Generate.AtomTag handwrittenOptions →
        ((∀ file ∈ scanned, replacedFiles.bytes file.path = .ok (Utf8.encode file.content)) ↔
          ∀ file ∈ scanned, file.path ≠ handwrittenPath)) :=
  (generate_keeps_iff generate_handwrittenFiles).2 handwrittenPath rfl

end GoCommands
