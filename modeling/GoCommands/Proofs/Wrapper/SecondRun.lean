import GoCommands.Proofs.FileSystem.Memory
import GoCommands.Proofs.Wrapper.Beside
import GoCommands.Proofs.Wrapper.Collisions
import GoCommands.Proofs.Wrapper.Output

/-! # Running twice

The second run scans the files of the first one and its output. The output brings no function and no
link, only the wrapper types. So it finds the first wrapper type again, unless the output is no source
file or stands in place of a file that was scanned before.
-/

namespace GoCommands

namespace Generate

theorem isName_of_isSource {s : MemoryFiles} {dir : Path} {entries : List DirEntry}
    (hEntries : s.entries dir = .ok entries) {e : DirEntry} (he : e ∈ entries) (hSource : DirectoryScan.isSource e) :
    Path.IsName e.name := by
  refine (MemoryFiles.name_of_mem_entries hEntries he).resolve_left fun hEmpty => ?_
  have hNone : Walk.isSourceFile [] = false := by decide
  rw [DirectoryScan.isSource, hEmpty, hNone, Bool.and_false] at hSource
  cases hSource

/-- The scanned files that the output does not replace. -/
def otherFiles (fs : FileSystem) (options : GenerateOptions) (package : Text) : List TaggedFile :=
  (scannedFiles fs options).filter fun file => file.path != outputPath options package

namespace Wrote

variable {s s' : MemoryFiles} {options : GenerateOptions} {package : Text}
  (h : Wrote s s' options package) (hTag : AtomTag options)
include h hTag

theorem isName : Path.IsName (outputName options package) := isName_outputName hTag h.isWord_package

/-- A name has other contents after the run exactly if it is that of the output. -/
theorem readTagged_after {m : Text} (hm : Path.IsName m) :
    Walk.readTagged (FileStore.view s') (Path.join options.dir m) (scanTag options) =
      if m = outputName options package then .ok (some (outputText (FileStore.view s) options package))
      else Walk.readTagged (FileStore.view s) (Path.join options.dir m) (scanTag options) := by
  have hBytes := MemoryFiles.bytes_writeFile (h.isName hTag) h.written hm
  split
  · rename_i hEq
    rw [if_pos hEq] at hBytes
    exact readTagged_output hTag h.admissible h.isWord_package (fun f hf => (names_wrappedFunctions hf).1) hBytes
  · rename_i hOther
    rw [if_neg hOther] at hBytes
    have hSame : (FileStore.view s').bytes (Path.join options.dir m) =
        (FileStore.view s).bytes (Path.join options.dir m) := hBytes
    rw [Walk.readTagged, Walk.readTagged, hSame]

/-- The output joins the scanned files if it is a source file, and it takes the place of one with its path. -/
theorem mem_scannedFiles_after (file : TaggedFile) : file ∈ scannedFiles (FileStore.view s') options ↔
    file ∈ otherFiles (FileStore.view s) options package ∨
      Walk.isSourceFile (outputName options package) ∧ file = outputFile (FileStore.view s) options package := by
  obtain ⟨entries, hEntries, -⟩ := h.readable
  obtain ⟨entries', hEntries', hMem⟩ := MemoryFiles.entries_writeFile (h.isName hTag) h.written hEntries
  -- Entries of one directory differ in their paths, since source files are listed under proper names.
  have hPath : ∀ e ∈ entries', DirectoryScan.isSource e →
      (Path.join options.dir e.name = outputPath options package ↔ e.name = outputName options package) := by
    intro e he hSource
    exact Path.join_inj options.dir (isName_of_isSource hEntries' he hSource) (h.isName hTag)
  rw [mem_scannedFiles hEntries', otherFiles, List.mem_filter, mem_scannedFiles hEntries, bne_iff_ne]
  constructor
  · rintro ⟨e, he, hFile⟩
    obtain ⟨hSource, text, hRead, rfl⟩ := (DirectoryScan.source?_eq_some_iff _ _ _ _ _).mp hFile
    rw [h.readTagged_after hTag (isName_of_isSource hEntries' he hSource)] at hRead
    split at hRead
    · rename_i hEq
      cases hRead
      refine .inr ⟨?_, by rw [hEq]; rfl⟩
      rw [← hEq]
      exact (Bool.and_eq_true_iff.mp hSource).2
    · rename_i hOther
      have hOld : e ∈ entries := by
        refine ((hMem e).mp he).resolve_right ?_
        rintro rfl
        exact hOther rfl
      refine .inl ⟨⟨e, hOld, (DirectoryScan.source?_eq_some_iff _ _ _ _ _).mpr ⟨hSource, text, hRead, rfl⟩⟩, ?_⟩
      exact mt (hPath e he hSource).mp hOther
  · rintro (⟨⟨e, he, hFile⟩, hOther⟩ | ⟨hSource, rfl⟩)
    · obtain ⟨hSource, text, hRead, rfl⟩ := (DirectoryScan.source?_eq_some_iff _ _ _ _ _).mp hFile
      have hNew : e ∈ entries' := (hMem e).mpr (.inl he)
      refine ⟨e, hNew, (DirectoryScan.source?_eq_some_iff _ _ _ _ _).mpr ⟨hSource, text, ?_, rfl⟩⟩
      rw [h.readTagged_after hTag (isName_of_isSource hEntries' hNew hSource),
        if_neg (mt (hPath e hNew hSource).mpr hOther)]
      exact hRead
    · refine ⟨⟨outputName options package, .file⟩, (hMem _).mpr (.inr rfl),
        (DirectoryScan.source?_eq_some_iff _ _ _ _ _).mpr ⟨hSource, _, ?_, rfl⟩⟩
      rw [h.readTagged_after hTag (h.isName hTag), if_pos rfl]

theorem readable_after : ∃ entries', (FileStore.view s').entries options.dir = .ok entries' ∧
    ∀ e ∈ entries', DirectoryScan.Readable (FileStore.view s') options.dir (scanTag options) e := by
  obtain ⟨entries, hEntries, hReadable⟩ := h.readable
  obtain ⟨entries', hEntries', hMem⟩ := MemoryFiles.entries_writeFile (h.isName hTag) h.written hEntries
  refine ⟨entries', hEntries', fun e he hSource => ?_⟩
  rw [h.readTagged_after hTag (isName_of_isSource hEntries' he hSource)]
  split
  · exact ⟨_, rfl⟩
  · rename_i hOther
    rcases (hMem e).mp he with hOld | rfl
    · exact hReadable e hOld hSource
    · exact absurd rfl hOther

end Wrote

theorem name_le_of_mem_head? {fs : FileSystem} {options : GenerateOptions} {f g : WrappedFunction}
    (hFirst : f ∈ (wrappedFunctions fs options).head?) (hg : g ∈ wrappedFunctions fs options) :
    f.name ≤ g.name := by
  have hSorted : (wrappedFunctions fs options).Pairwise fun a b => a.name ≤ b.name :=
    Text.pairwise_mergeSort WrappedFunction.name _
  obtain ⟨rest, hRest⟩ := List.head?_eq_some_iff.mp hFirst
  rw [hRest] at hg hSorted
  rcases List.mem_cons.mp hg with rfl | hg
  · exact le_refl g.name
  · exact List.rel_of_pairwise_cons hSorted hg

theorem onlyTypes_of_wrapperSpecs {unit : Go.SourceFile} {functions : List WrappedFunction}
    (hSpecs : unit.typeSpecs = functions.map Wrapper.wrapperSpec) (hFunctions : unit.functions = []) :
    DirectoryScan.OnlyTypes unit := by
  refine ⟨hFunctions, fun spec hSpec => ?_⟩
  rw [hSpecs] at hSpec
  obtain ⟨f, -, rfl⟩ := List.mem_map.mp hSpec
  rfl

/-- What it takes for a second run to find the wrapper type of a function first. -/
structure Recaught (fs : FileSystem) (options : GenerateOptions) (package function : Text) : Prop where
  isSource : Walk.isSourceFile (outputName options package)
  /-- The function is not lost with a replaced file. -/
  declared : ∃ unit ∈ TaggedFile.parsed (otherFiles fs options package),
    function ∈ unit.2.functions.map Go.FunctionDecl.name
  /-- No function before it was claimed in a replaced file only. -/
  first : ∀ g ∈ (DirectoryScan.ofFiles (otherFiles fs options package)).eligible,
    Wrapper.typeName g.name ∈ (DirectoryScan.ofFiles (otherFiles fs options package)).typeNames → function ≤ g.name

namespace Wrote

variable {s s' : MemoryFiles} {options : GenerateOptions} {package : Text}
  (h : Wrote s s' options package)
include h

theorem scannable_others : DirectoryScan.Scannable (otherFiles (FileStore.view s) options package) :=
  h.scannable.of_subset fun _ hFile => List.mem_of_mem_filter hFile

theorem packageName_others {unit : ScannedFile}
    (hUnit : unit ∈ TaggedFile.parsed (otherFiles (FileStore.view s) options package)) :
    ∀ name ∈ unit.2.packageName, package = name := by
  intro name hName
  have hPackage := h.packageName
  rw [DirectoryScan.packageName_ofFiles] at hPackage
  obtain ⟨first, hFirst, hPackage⟩ := List.exists_of_findSome?_eq_some hPackage
  have hMem := TaggedFile.parsed_subset (fun _ hFile => List.mem_of_mem_filter hFile) unit hUnit
  exact h.scannable.samePackage first hFirst unit hMem package hPackage name hName

theorem not_mem_typeNames_others {f : WrappedFunction} (hf : f ∈ wrappedFunctions (FileStore.view s) options) :
    Wrapper.typeName f.name ∉
      (DirectoryScan.ofFiles (otherFiles (FileStore.view s) options package)).typeNames := by
  intro hType
  obtain ⟨unit, hUnit, hSpec⟩ := (DirectoryScan.mem_typeNames_ofFiles _ _).mp hType
  refine h.fresh f hf ((DirectoryScan.mem_typeNames_ofFiles _ _).mpr ⟨unit, ?_, hSpec⟩)
  exact TaggedFile.parsed_subset (fun _ hFile => List.mem_of_mem_filter hFile) unit hUnit

/-- A function that is wrapped can be wrapped among the other files, if one of them declares it. -/
theorem mem_eligible_others_iff {f : WrappedFunction} (hf : f ∈ wrappedFunctions (FileStore.view s) options) :
    f.name ∈ (DirectoryScan.ofFiles (otherFiles (FileStore.view s) options package)).eligible.map
        WrappedFunction.name ↔
      ∃ unit ∈ TaggedFile.parsed (otherFiles (FileStore.view s) options package),
        f.name ∈ unit.2.functions.map Go.FunctionDecl.name := by
  have hNames := DirectoryScan.mem_names_functions h.scannable_others f.name
  constructor
  · intro hName
    obtain ⟨g, hg, hEq⟩ := List.mem_map.mp hName
    exact (hNames.mp (List.mem_map.mpr ⟨g, ((DirectoryScan.mem_eligible _ g).mp hg).1, hEq⟩)).2
  · intro hDeclared
    obtain ⟨g, hg, hEq⟩ := List.mem_map.mp (hNames.mpr ⟨(names_wrappedFunctions hf).2, hDeclared⟩)
    refine List.mem_map.mpr ⟨g, (DirectoryScan.mem_eligible _ g).mpr ⟨hg, fun hClaimed => ?_⟩, hEq⟩
    obtain ⟨unit, hUnit, hLink⟩ := (DirectoryScan.mem_claimedNames_ofFiles _ _).mp hClaimed
    rw [hEq] at hLink
    refine ((DirectoryScan.mem_eligible _ f).mp hf).2
      ((DirectoryScan.mem_claimedNames_ofFiles _ _).mpr ⟨unit, ?_, hLink⟩)
    exact TaggedFile.parsed_subset (fun _ hFile => List.mem_of_mem_filter hFile) unit hUnit

variable (hTag : AtomTag options)
include hTag

theorem firstDeclared_after_iff {f : WrappedFunction}
    (hFirst : f ∈ (wrappedFunctions (FileStore.view s) options).head?) :
    FirstDeclared (DirectoryScan.ofFiles (scannedFiles (FileStore.view s') options)) f.name ↔
      Recaught (FileStore.view s) options package f.name := by
  obtain ⟨unit, hParse, -, hSpecs, hFunctions⟩ := parse_outputText hTag h.isWord_package (FileStore.view s)
  have hTypes := onlyTypes_of_wrapperSpecs hSpecs hFunctions
  have hFiles := h.mem_scannedFiles_after hTag
  have hEligible := DirectoryScan.mem_eligible_beside hFiles hParse hTypes
  have hTypeNames := DirectoryScan.mem_typeNames_beside hFiles hParse
  rw [hSpecs, Wrapper.names_wrapperSpec] at hTypeNames
  have hf : f ∈ wrappedFunctions (FileStore.view s) options := List.mem_of_mem_head? hFirst
  have hDeclared := h.mem_eligible_others_iff hf
  constructor
  · rintro ⟨hWrapped, hType, hLeast⟩
    refine ⟨?_, hDeclared.mp ?_, fun g hg hType => ?_⟩
    · exact (((hTypeNames _).mp hType).resolve_left (h.not_mem_typeNames_others hf)).1
    · obtain ⟨g, hg, hEq⟩ := List.mem_map.mp hWrapped
      exact List.mem_map.mpr ⟨g, (hEligible g).mp hg, hEq⟩
    · exact hLeast g ((hEligible g).mpr hg) ((hTypeNames _).mpr (.inl hType))
  · rintro ⟨hSource, hOthers, hLeast⟩
    refine ⟨?_, (hTypeNames _).mpr (.inr ⟨hSource, List.mem_map.mpr ⟨f, hf, rfl⟩⟩), fun g hg hType => ?_⟩
    · obtain ⟨g, hg, hEq⟩ := List.mem_map.mp (hDeclared.mpr hOthers)
      exact List.mem_map.mpr ⟨g, (hEligible g).mpr hg, hEq⟩
    · rcases (hTypeNames _).mp hType with hOther | ⟨-, hWrapper⟩
      · exact hLeast g ((hEligible g).mp hg) hOther
      · -- A wrapper type of the output is one of the first run, and `f` is the first function of that.
        obtain ⟨w, hw, hEq⟩ := List.mem_map.mp hWrapper
        rw [← Wrapper.typeName_injective hEq]
        exact name_le_of_mem_head? hFirst hw

theorem scannable_after : DirectoryScan.Scannable (scannedFiles (FileStore.view s') options) := by
  obtain ⟨unit, hParse, hPackage, hSpecs, hFunctions⟩ :=
    parse_outputText hTag h.isWord_package (FileStore.view s)
  have hTypes : DirectoryScan.OnlyTypes unit := onlyTypes_of_wrapperSpecs hSpecs hFunctions
  refine DirectoryScan.scannable_beside (h.mem_scannedFiles_after hTag) hParse hTypes h.scannable_others ?_
  intro name hName other hOther
  rw [← Option.some.inj (hPackage.symm.trans hName)]
  exact h.packageName_others hOther

/-- With the output among its files a scan finds a package. -/
theorem package_after (hSource : Walk.isSourceFile (outputName options package)) :
    (DirectoryScan.ofFiles (scannedFiles (FileStore.view s') options)).sourceFiles ≠ [] ∧
      (DirectoryScan.ofFiles (scannedFiles (FileStore.view s') options)).packageName.isSome := by
  obtain ⟨unit, hParse, hPackage, -⟩ := parse_outputText hTag h.isWord_package (FileStore.view s)
  have hUnit : (outputPath options package, unit) ∈
      TaggedFile.parsed (scannedFiles (FileStore.view s') options) :=
    (DirectoryScan.mem_parsed_beside (h.mem_scannedFiles_after hTag) hParse _).mpr (.inr ⟨hSource, rfl⟩)
  rw [DirectoryScan.sourceFiles_ofFiles, DirectoryScan.packageName_ofFiles]
  constructor
  · exact List.ne_nil_of_mem (List.mem_map_of_mem hUnit)
  · rw [List.findSome?_isSome_iff]
    exact ⟨_, hUnit, by rw [hPackage]; rfl⟩

/-- A second run reports the first wrapper type under these conditions and no others. -/
theorem secondRun_iff {f : WrappedFunction} (hFirst : f ∈ (wrappedFunctions (FileStore.view s) options).head?) :
    generate s' options = (s', .error (.wrapperExists f.name (Wrapper.typeName f.name))) ↔
      Recaught (FileStore.view s) options package f.name := by
  rw [generate_eq_wrapperExists_iff]
  constructor
  · rintro ⟨-, scan, hScan, hOutput⟩
    obtain ⟨-, -, rfl⟩ := (ofDirectory_eq_iff _ _ scan).mp hScan
    obtain ⟨-, -, -, hDeclared⟩ := (output_eq_wrapperExists_iff _ _ _ _).mp hOutput
    exact (h.firstDeclared_after_iff hTag hFirst).mp hDeclared
  · intro hCaught
    have hScan := (ofDirectory_eq_iff (FileStore.view s') options _).mpr
      ⟨h.readable_after hTag, h.scannable_after hTag, rfl⟩
    obtain ⟨hFiles, hPackage⟩ := h.package_after hTag hCaught.isSource
    have hDeclared := (h.firstDeclared_after_iff hTag hFirst).mpr hCaught
    exact ⟨h.admissible, _, hScan, (output_eq_wrapperExists_iff _ _ _ _).mpr ⟨hFiles, hPackage, rfl, hDeclared⟩⟩

omit hTag

/-- Where no scanned file is replaced, only the package can be in the way. -/
theorem recaught_iff {f : WrappedFunction} (hf : f ∈ wrappedFunctions (FileStore.view s) options)
    (hNew : ∀ file ∈ scannedFiles (FileStore.view s) options, file.path ≠ outputPath options package) :
    Recaught (FileStore.view s) options package f.name ↔ ¬ Text.endsWith "_test".toList ('_' :: package) := by
  have hOthers : otherFiles (FileStore.view s) options package = scannedFiles (FileStore.view s) options :=
    List.filter_eq_self.mpr fun file hFile => bne_iff_ne.mpr (hNew file hFile)
  have hSource : Walk.isSourceFile (outputName options package) ↔
      ¬ Text.endsWith "_test".toList ('_' :: package) := by
    rw [isSourceFile_outputName, Bool.not_eq_true', Bool.not_eq_true]
  rw [← hSource]
  refine ⟨Recaught.isSource, fun h' => ⟨h', ?_, fun g hg hType => ?_⟩⟩
  · refine (h.mem_eligible_others_iff hf).mp ?_
    rw [hOthers]
    exact List.mem_map_of_mem hf
  · rw [hOthers] at hg hType
    exact absurd hType (h.fresh g hg)

end Wrote

end Generate

/-- With no tag or a single atom as tag, a run that wrote a file is found by a second one with the same
options, which then reports the first of the wrapped functions and writes nothing, exactly under the
conditions above. If no scanned file was replaced, only a package `test` or `_test` is an exception. -/
theorem secondRun_reports_iff {s s' : MemoryFiles} {options : GenerateOptions} {path : Path}
    (hTag : Generate.AtomTag options) (hRun : generate s options = (s', .ok (some path))) :
    ∃ package, path = Generate.outputPath options package ∧
      (DirectoryScan.ofFiles (Generate.scannedFiles (FileStore.view s) options)).packageName = some package ∧
      ∃ f ∈ (Generate.wrappedFunctions (FileStore.view s) options).head?,
        (generate s' options = (s', .error (.wrapperExists f.name (Wrapper.typeName f.name))) ↔
          Generate.Recaught (FileStore.view s) options package f.name) ∧
        ((∀ file ∈ Generate.scannedFiles (FileStore.view s) options, file.path ≠ path) →
          (Generate.Recaught (FileStore.view s) options package f.name ↔
            ¬ Text.endsWith "_test".toList ('_' :: package))) := by
  obtain ⟨package, rfl, hWrote⟩ := Generate.exists_wrote hRun
  obtain ⟨f, rest, hFunctions⟩ := List.exists_cons_of_ne_nil hWrote.nonempty
  have hFirst : f ∈ (Generate.wrappedFunctions (FileStore.view s) options).head? := by
    rw [hFunctions]
    rfl
  refine ⟨package, rfl, hWrote.packageName, f, hFirst, hWrote.secondRun_iff hTag hFirst, fun hNew => ?_⟩
  exact hWrote.recaught_iff (List.mem_of_mem_head? hFirst) hNew

theorem secondRun_reports_iff_clashingFiles : ∃ package, clashingPath = Generate.outputPath clashingOptions package ∧
    (DirectoryScan.ofFiles (Generate.scannedFiles (FileStore.view clashingFiles) clashingOptions)).packageName =
      some package ∧
    ∃ f ∈ (Generate.wrappedFunctions (FileStore.view clashingFiles) clashingOptions).head?,
      (generate clashedFiles clashingOptions =
          (clashedFiles, .error (.wrapperExists f.name (Wrapper.typeName f.name))) ↔
        Generate.Recaught (FileStore.view clashingFiles) clashingOptions package f.name) ∧
      ((∀ file ∈ Generate.scannedFiles (FileStore.view clashingFiles) clashingOptions, file.path ≠ clashingPath) →
        (Generate.Recaught (FileStore.view clashingFiles) clashingOptions package f.name ↔
          ¬ Text.endsWith "_test".toList ('_' :: package))) :=
  secondRun_reports_iff (fun _ h => nomatch h) generate_clashingFiles

/-- A package whose output is taken for a test. -/
def testFiles : MemoryFiles :=
  MemoryFiles.empty.addFile "ops/a.go".toList (Utf8.encode "package test\n\nfunc Build() {}\n".toList)

def testOptions : GenerateOptions := ⟨"ops".toList, none, false⟩

def testScan : DirectoryScan where
  sourceFiles := ["ops/a.go".toList]
  packageName := some "test".toList
  typeNames := []
  claimedNames := []
  functions := [⟨"Build".toList, none, ⟨false, false⟩⟩]

theorem eligible_testScan : testScan.eligible = testScan.functions :=
  DirectoryScan.eligible_of_unclaimed rfl (by decide)

def testPath : Path := "ops/generated_gantry_test.go".toList

theorem read_testFiles :
    DirectoryScan.ofDirectory testFiles.fileSystem "ops".toList none = .ok testScan ∧
      (Go.SourceFile.parse (Wrapper.unit "test".toList none testScan.functions)).isSome ∧
      Generate.outputPath testOptions "test".toList = testPath ∧
      (Path.normalize testPath).directory.any testFiles.isDir := by
  decide +kernel

def testedFiles : MemoryFiles :=
  (testFiles.writeFile testPath (Utf8.encode (Layout.normalize
    (Wrapper.unit "test".toList none testScan.functions))) Generate.fileMode).1

theorem generate_testFiles :
    generate testFiles testOptions = (testedFiles, .ok (some testPath)) := by
  obtain ⟨hScan, hParse, hPath, hDirectory⟩ := read_testFiles
  exact Generate.generate_of_unclaimed rfl hScan (by decide) rfl rfl rfl (by decide) (by decide) hParse hPath
    (MemoryFiles.writeFile_of_isDir hDirectory _ _)

theorem exists_unreported : ∃ (s s' : MemoryFiles) (options : GenerateOptions) (path : Path),
    Generate.AtomTag options ∧ generate s options = (s', .ok (some path)) ∧
      ∃ f ∈ (Generate.wrappedFunctions (FileStore.view s) options).head?,
        generate s' options ≠ (s', .error (.wrapperExists f.name (Wrapper.typeName f.name))) := by
  have hTag : Generate.AtomTag testOptions := fun _ h => nomatch h
  obtain ⟨-, -, hFiles⟩ := (Generate.ofDirectory_eq_iff _ testOptions _).mp read_testFiles.1
  obtain ⟨package, -, hWrote⟩ := Generate.exists_wrote generate_testFiles
  have hPackage : package = "test".toList := by
    have hName := hWrote.packageName
    change (DirectoryScan.ofFiles (Generate.scannedFiles testFiles.fileSystem testOptions)).packageName = _ at hName
    rw [← hFiles] at hName
    exact (Option.some.inj hName).symm
  have hFirst : (⟨"Build".toList, none, ⟨false, false⟩⟩ : WrappedFunction) ∈
      (Generate.wrappedFunctions (FileStore.view testFiles) testOptions).head? := by
    show _ ∈ (DirectoryScan.ofFiles (Generate.scannedFiles testFiles.fileSystem testOptions)).eligible.head?
    rw [← hFiles, eligible_testScan]
    rfl
  refine ⟨testFiles, testedFiles, testOptions, _, hTag, generate_testFiles, _, hFirst, fun hReported => ?_⟩
  have hSource := ((hWrote.secondRun_iff hTag hFirst).mp hReported).isSource
  rw [Generate.isSourceFile_outputName, hPackage] at hSource
  exact absurd hSource (by decide)

end GoCommands
