import GoCommands.Proofs.Go.DeclaredNames
import GoCommands.Proofs.Text.Order
import GoCommands.Proofs.Wrapper.Scanning
import GoCommands.Wrapper.Generate

/-! # Runs that write a file, and runs that find a wrapper

A run writes only after everything else has succeeded, so a run that wrote a file scanned the directory,
found functions to wrap and none of their wrapper types. A run that finds some reports the first by name
and writes nothing.
-/

namespace GoCommands

namespace DirectoryScan

variable {files : List TaggedFile}

theorem isWord_packageName {package : Text} (h : (ofFiles files).packageName = some package) :
    Go.IsWord package := by
  rw [packageName_ofFiles] at h
  obtain ⟨unit, hUnit, hPackage⟩ := List.exists_of_findSome?_eq_some h
  obtain ⟨file, -, hParse, -⟩ := (TaggedFile.mem_parsed files unit).mp hUnit
  obtain ⟨declaration, hDeclaration, hName⟩ := List.exists_of_findSome?_eq_some hPackage
  obtain ⟨item, hItem, rfl⟩ := List.mem_map.mp hDeclaration
  refine Go.SourceFile.isWord_of_parse hParse hItem ?_
  cases hKind : item.declaration with
  | package name =>
    rw [hKind] at hName
    exact hName
  | function | imports | method | types | other =>
    rw [hKind] at hName
    cases hName

theorem exists_item_of_mem_functions {f : WrappedFunction} (h : f ∈ (ofFiles files).functions) :
    ∃ unit ∈ TaggedFile.parsed files, ∃ item ∈ unit.2.items, ∃ g, item.function? = some g ∧ g.name = f.name ∧
      CommandName.isExported g.name := by
  rw [functions_ofFiles] at h
  obtain ⟨unit, hUnit, hWrapped⟩ := List.mem_flatMap.mp h
  obtain ⟨item, hItem, hFunction⟩ := List.mem_filterMap.mp hWrapped
  obtain ⟨⟨g, invocation⟩, hCommand, rfl⟩ := Option.map_eq_some_iff.mp hFunction
  obtain ⟨hDeclared, hExported, -⟩ := (Go.Item.command?_eq_some_iff _ _ _ _).mp hCommand
  exact ⟨unit, hUnit, item, hItem, g, hDeclared, rfl, hExported⟩

/-- In files that can be scanned, the functions to wrap are all the exported ones. -/
theorem mem_names_functions (h : Scannable files) (name : Text) :
    name ∈ (ofFiles files).functions.map WrappedFunction.name ↔ CommandName.isExported name ∧
      ∃ unit ∈ TaggedFile.parsed files, name ∈ unit.2.functions.map Go.FunctionDecl.name := by
  constructor
  · intro hName
    obtain ⟨f, hf, rfl⟩ := List.mem_map.mp hName
    obtain ⟨unit, hUnit, item, hItem, g, hFunction, hName, hExported⟩ := exists_item_of_mem_functions hf
    refine ⟨hName ▸ hExported, unit, hUnit, List.mem_map.mpr ⟨g, ?_, hName⟩⟩
    exact List.mem_filterMap.mpr ⟨item, hItem, hFunction⟩
  · rintro ⟨hExported, unit, hUnit, hName⟩
    obtain ⟨g, hg, rfl⟩ := List.mem_map.mp hName
    obtain ⟨item, hItem, hFunction⟩ := List.mem_filterMap.mp hg
    have hDeclared : item.declaration = .function g := by
      rw [Go.Item.function?] at hFunction
      split at hFunction
      · rename_i f hKind
        rw [hKind, Option.some.inj hFunction]
      · cases hFunction
    obtain ⟨invocation, hInvocation⟩ := h.callable unit hUnit item hItem g hDeclared hExported
    have hCommand := (Go.Item.command?_eq_some_iff unit.2.contextImport item g invocation).mpr
      ⟨hFunction, hExported, hInvocation⟩
    have hWrapped : item.wrapped? unit.2.contextImport = some ⟨g.name, item.doc, invocation⟩ := by
      rw [Go.Item.wrapped?, hCommand, Option.map_some]
    rw [functions_ofFiles]
    exact List.mem_map.mpr
      ⟨_, List.mem_flatMap.mpr ⟨unit, hUnit, List.mem_filterMap.mpr ⟨item, hItem, hWrapped⟩⟩, rfl⟩

theorem isWord_of_mem_functions {f : WrappedFunction} (h : f ∈ (ofFiles files).functions) :
    Go.IsWord f.name ∧ CommandName.isExported f.name := by
  obtain ⟨unit, hUnit, item, hItem, g, hFunction, hName, hExported⟩ := exists_item_of_mem_functions h
  obtain ⟨file, -, hParse, -⟩ := (TaggedFile.mem_parsed files unit).mp hUnit
  rw [← hName]
  exact ⟨Go.SourceFile.isWord_of_function? hParse hItem hFunction, hExported⟩

end DirectoryScan

namespace Generate

/-- The tag that selects the files to scan, if one does. -/
def scanTag (options : GenerateOptions) : Option Text :=
  if options.onlyTagged then some (effectiveTag options) else none

/-- The files that a run scans, in the order of their names. -/
def scannedFiles (fs : FileSystem) (options : GenerateOptions) : List TaggedFile :=
  match fs.entries options.dir with
  | .ok entries => DirectoryScan.sources fs options.dir (scanTag options) entries
  | .error _ => []

theorem mem_scannedFiles {fs : FileSystem} {options : GenerateOptions} {entries : List DirEntry}
    (hEntries : fs.entries options.dir = .ok entries) (file : TaggedFile) :
    file ∈ scannedFiles fs options ↔
      ∃ e ∈ entries, DirectoryScan.source? fs options.dir (scanTag options) e = some file := by
  rw [scannedFiles, hEntries]
  simp only [DirectoryScan.sources, List.mem_filterMap, sortEntries, List.mem_mergeSort]

/-- The functions that a run wraps, by name. -/
def wrappedFunctions (fs : FileSystem) (options : GenerateOptions) : List WrappedFunction :=
  (DirectoryScan.ofFiles (scannedFiles fs options)).eligible

theorem ofDirectory_eq_iff (fs : FileSystem) (options : GenerateOptions) (scan : DirectoryScan) :
    DirectoryScan.ofDirectory fs options.dir (scanTag options) = .ok scan ↔
      (∃ entries, fs.entries options.dir = .ok entries ∧
        ∀ e ∈ entries, DirectoryScan.Readable fs options.dir (scanTag options) e) ∧
      DirectoryScan.Scannable (scannedFiles fs options) ∧
        scan = DirectoryScan.ofFiles (scannedFiles fs options) := by
  rw [DirectoryScan.ofDirectory_ok_iff, scannedFiles]
  cases fs.entries options.dir with
  | error cause => simp
  | ok entries => simp

/-- A tag is there if it is needed. -/
def Admissible (options : GenerateOptions) : Prop := (options.onlyTagged && options.buildTag.isNone) = false

theorem plan_eq_output {fs : FileSystem} {options : GenerateOptions} {scan : DirectoryScan}
    (hOptions : Admissible options)
    (hScan : DirectoryScan.ofDirectory fs options.dir (scanTag options) = .ok scan) :
    plan fs options = output options scan := by
  rw [scanTag] at hScan
  rw [plan, if_neg (by rw [hOptions]; exact Bool.false_ne_true)]
  simp only [hScan]

theorem exists_scan_of_plan {fs : FileSystem} {options : GenerateOptions}
    {result : Except GenerateError (Option (Path × Text))} (h : plan fs options = result)
    (hTag : result ≠ .error .filterWithoutTag) (hScan : ∀ e, result ≠ .error (.scan e)) :
    Admissible options ∧ ∃ scan, DirectoryScan.ofDirectory fs options.dir (scanTag options) = .ok scan ∧
      output options scan = result := by
  rw [plan] at h
  split at h
  · exact absurd h.symm hTag
  · rename_i hOptions
    refine ⟨Bool.eq_false_iff.mpr hOptions, ?_⟩
    dsimp only at h
    split at h
    · exact absurd h.symm (hScan _)
    · rename_i scan hOk
      exact ⟨scan, hOk, h⟩

theorem existingWrapper_eq_none_iff (scan : DirectoryScan) (functions : List WrappedFunction) :
    existingWrapper scan functions = none ↔ ∀ f ∈ functions, Wrapper.typeName f.name ∉ scan.typeNames := by
  simp [existingWrapper]

theorem output_eq_some_iff (options : GenerateOptions) (scan : DirectoryScan) (path : Path) (text : Text) :
    output options scan = .ok (some (path, text)) ↔ scan.sourceFiles ≠ [] ∧ ∃ package,
      scan.packageName = some package ∧ scan.eligible ≠ [] ∧
        (∀ f ∈ scan.eligible, Wrapper.typeName f.name ∉ scan.typeNames) ∧
        path = outputPath options package ∧
        Layout.format? (Wrapper.unit package options.buildTag scan.eligible) = some text := by
  rw [output, ← existingWrapper_eq_none_iff]
  split
  · rename_i hEmpty
    exact iff_of_false (by simp) fun h => h.1 (List.isEmpty_iff.mp hEmpty)
  · rename_i hFiles
    rw [List.isEmpty_iff] at hFiles
    rw [and_iff_right hFiles]
    cases hPackage : scan.packageName with
    | none => simp
    | some package =>
      simp only [Option.some.injEq, exists_eq_left']
      split
      · rename_i hEmpty
        exact iff_of_false (by simp) fun h => h.1 (List.isEmpty_iff.mp hEmpty)
      · rename_i hFunctions
        rw [List.isEmpty_iff] at hFunctions
        rw [and_iff_right hFunctions]
        cases existingWrapper scan scan.eligible with
        | some e => simp
        | none =>
          cases Layout.format? (Wrapper.unit package options.buildTag scan.eligible) with
          | none => simp
          | some t => simp [@eq_comm _ path]

/-- The name is that of the first function whose wrapper type is declared. -/
structure FirstDeclared (scan : DirectoryScan) (name : Text) : Prop where
  wrapped : name ∈ scan.eligible.map WrappedFunction.name
  declared : Wrapper.typeName name ∈ scan.typeNames
  first : ∀ g ∈ scan.eligible, Wrapper.typeName g.name ∈ scan.typeNames → name ≤ g.name

theorem existingWrapper_eq_some_iff (scan : DirectoryScan) (name type : Text) :
    existingWrapper scan scan.eligible = some (.wrapperExists name type) ↔
      type = Wrapper.typeName name ∧ FirstDeclared scan name := by
  have hFirst := Text.find?_mergeSort_iff WrappedFunction.name
    (scan.functions.filter fun f => !scan.claimedNames.contains (CommandName.ofIdentifier f.name))
    (fun n => scan.typeNames.contains (Wrapper.typeName n)) name
  have hMem : ∀ f, (f ∈ scan.functions.filter fun f =>
      !scan.claimedNames.contains (CommandName.ofIdentifier f.name)) ↔ f ∈ scan.eligible :=
    fun f => List.mem_mergeSort.symm
  simp only [List.mem_map, hMem, List.contains_iff_mem] at hFirst
  constructor
  · intro h
    obtain ⟨f, hFound, hEq⟩ := Option.map_eq_some_iff.mp h
    obtain ⟨hName, hType⟩ := GenerateError.wrapperExists.inj hEq
    subst hName hType
    obtain ⟨hWrapped, hDeclared, hLeast⟩ := hFirst.mp (Option.map_eq_some_iff.mpr ⟨f, hFound, rfl⟩)
    exact ⟨rfl, List.mem_map.mpr hWrapped, hDeclared, hLeast⟩
  · rintro ⟨rfl, hWrapped, hDeclared, hLeast⟩
    have hSome := hFirst.mpr ⟨List.mem_map.mp hWrapped, hDeclared, hLeast⟩
    obtain ⟨f, hFound, rfl⟩ := Option.map_eq_some_iff.mp hSome
    exact Option.map_eq_some_iff.mpr ⟨f, hFound, rfl⟩

theorem output_eq_wrapperExists_iff (options : GenerateOptions) (scan : DirectoryScan) (name type : Text) :
    output options scan = .error (.wrapperExists name type) ↔ scan.sourceFiles ≠ [] ∧
      scan.packageName.isSome ∧ type = Wrapper.typeName name ∧ FirstDeclared scan name := by
  rw [output, ← existingWrapper_eq_some_iff]
  split
  · rename_i hEmpty
    exact iff_of_false (by simp) fun h => h.1 (List.isEmpty_iff.mp hEmpty)
  · rename_i hFiles
    rw [List.isEmpty_iff] at hFiles
    rw [and_iff_right hFiles]
    cases hPackage : scan.packageName with
    | none => simp
    | some package =>
      simp only [Option.isSome_some, true_and]
      split
      · rename_i hEmpty
        rw [List.isEmpty_iff.mp hEmpty]
        simp [existingWrapper]
      · cases existingWrapper scan scan.eligible with
        | some e => simp
        | none => cases Layout.format? (Wrapper.unit package options.buildTag scan.eligible) <;> simp

/-- A run that finds a wrapper type leaves everything as it is. -/
theorem generate_eq_wrapperExists_iff [FileStore σ] (s : σ) (options : GenerateOptions) (name type : Text) :
    generate s options = (s, .error (.wrapperExists name type)) ↔ Admissible options ∧ ∃ scan,
      DirectoryScan.ofDirectory (FileStore.view s) options.dir (scanTag options) = .ok scan ∧
        output options scan = .error (.wrapperExists name type) := by
  have hPlan : generate s options = (s, .error (.wrapperExists name type)) ↔
      plan (FileStore.view s) options = .error (.wrapperExists name type) := by
    rw [generate]
    split
    · rename_i hPlan
      simp [hPlan]
    · rename_i hPlan
      simp [hPlan]
    · rename_i hPlan
      rw [hPlan]
      split <;> simp
  rw [hPlan]
  constructor
  · intro h
    exact exists_scan_of_plan h (by simp) (by simp)
  · rintro ⟨hOptions, scan, hScan, hOutput⟩
    rw [plan_eq_output hOptions hScan, hOutput]

/-- What is known of a run that wrote a file for a package. -/
structure Wrote [FileStore σ] (s s' : σ) (options : GenerateOptions) (package : Text) : Prop where
  admissible : Admissible options
  readable : ∃ entries, (FileStore.view s).entries options.dir = .ok entries ∧
    ∀ e ∈ entries, DirectoryScan.Readable (FileStore.view s) options.dir (scanTag options) e
  scannable : DirectoryScan.Scannable (scannedFiles (FileStore.view s) options)
  packageName : (DirectoryScan.ofFiles (scannedFiles (FileStore.view s) options)).packageName = some package
  nonempty : wrappedFunctions (FileStore.view s) options ≠ []
  fresh : ∀ f ∈ wrappedFunctions (FileStore.view s) options,
    Wrapper.typeName f.name ∉ (DirectoryScan.ofFiles (scannedFiles (FileStore.view s) options)).typeNames
  written : FileStore.writeFile s (outputPath options package)
    (Utf8.encode (Layout.normalize
      (Wrapper.unit package options.buildTag (wrappedFunctions (FileStore.view s) options)))) fileMode =
        (s', .ok ())

theorem generate_of_scan [FileStore σ] {s s' : σ} {options : GenerateOptions} {scan : DirectoryScan}
    {package : Text} (hOptions : Admissible options)
    (hScan : DirectoryScan.ofDirectory (FileStore.view s) options.dir (scanTag options) = .ok scan)
    (hFiles : scan.sourceFiles ≠ []) (hPackage : scan.packageName = some package)
    (hNonempty : scan.eligible ≠ []) (hFresh : ∀ f ∈ scan.eligible, Wrapper.typeName f.name ∉ scan.typeNames)
    (hParse : (Go.SourceFile.parse (Wrapper.unit package options.buildTag scan.eligible)).isSome)
    (hWrite : FileStore.writeFile s (outputPath options package)
      (Utf8.encode (Layout.normalize (Wrapper.unit package options.buildTag scan.eligible))) fileMode =
        (s', .ok ())) :
    generate s options = (s', .ok (some (outputPath options package))) := by
  have hFormat : Layout.format? (Wrapper.unit package options.buildTag scan.eligible) =
      some (Layout.normalize (Wrapper.unit package options.buildTag scan.eligible)) := if_pos hParse
  have hOutput := (output_eq_some_iff options scan _ _).mpr
    ⟨hFiles, package, hPackage, hNonempty, hFresh, rfl, hFormat⟩
  rw [generate, plan_eq_output hOptions hScan, hOutput]
  simp only [hWrite]

/-- Where no command name is claimed and no type declared, a run wraps all functions. -/
theorem generate_of_unclaimed [FileStore σ] {s : σ} {options : GenerateOptions} {scan : DirectoryScan}
    {package : Text} {path : Path} (hOptions : Admissible options)
    (hScan : DirectoryScan.ofDirectory (FileStore.view s) options.dir (scanTag options) = .ok scan)
    (hFiles : scan.sourceFiles ≠ []) (hPackage : scan.packageName = some package) (hTypes : scan.typeNames = [])
    (hClaimed : scan.claimedNames = []) (hNonempty : scan.functions ≠ [])
    (hSorted : scan.functions.Pairwise fun f g => Text.le f.name g.name)
    (hParse : (Go.SourceFile.parse (Wrapper.unit package options.buildTag scan.functions)).isSome)
    (hPath : outputPath options package = path)
    (hWrite : (FileStore.writeFile s path (Utf8.encode (Layout.normalize
      (Wrapper.unit package options.buildTag scan.functions))) fileMode).2 = .ok ()) :
    generate s options = ((FileStore.writeFile s path (Utf8.encode (Layout.normalize
      (Wrapper.unit package options.buildTag scan.functions))) fileMode).1, .ok (some path)) := by
  have hEligible := DirectoryScan.eligible_of_unclaimed hClaimed hSorted
  rw [← hPath]
  refine generate_of_scan hOptions hScan hFiles hPackage ?_ ?_ ?_ ?_
  · rw [hEligible]
    exact hNonempty
  · rw [hTypes]
    exact fun _ _ => List.not_mem_nil
  · rw [hEligible]
    exact hParse
  · rw [hEligible, hPath, ← hWrite]

/-- The unit that is formatted for the output is a source file. -/
theorem exists_wrote_formatted [FileStore σ] {s s' : σ} {options : GenerateOptions} {path : Path}
    (h : generate s options = (s', .ok (some path))) :
    ∃ package, path = outputPath options package ∧ Wrote s s' options package ∧
      let unit := Wrapper.unit package options.buildTag (wrappedFunctions (FileStore.view s) options)
      Layout.format? unit = some (Layout.normalize unit) := by
  rw [generate] at h
  split at h
  · cases h
  · cases h
  · rename_i target text hPlan
    obtain ⟨hOptions, scan, hScan, hOutput⟩ := exists_scan_of_plan hPlan (by simp) (by simp)
    obtain ⟨-, package, hPackage, hNonempty, hFresh, rfl, hFormat⟩ :=
      (output_eq_some_iff options scan target text).mp hOutput
    obtain ⟨hReadable, hScannable, hFiles⟩ := (ofDirectory_eq_iff _ _ scan).mp hScan
    have hText : text = Layout.normalize (Wrapper.unit package options.buildTag scan.eligible) := by
      rw [Layout.format?] at hFormat
      split at hFormat
      · exact (Option.some.inj hFormat).symm
      · cases hFormat
    subst hFiles hText
    split at h
    · cases h
    · rename_i hWritten
      cases h
      exact ⟨package, rfl, ⟨hOptions, hReadable, hScannable, hPackage, hNonempty, hFresh, hWritten⟩, hFormat⟩

theorem exists_wrote [FileStore σ] {s s' : σ} {options : GenerateOptions} {path : Path}
    (h : generate s options = (s', .ok (some path))) :
    ∃ package, path = outputPath options package ∧ Wrote s s' options package := by
  obtain ⟨package, hPath, hWrote, -⟩ := exists_wrote_formatted h
  exact ⟨package, hPath, hWrote⟩

namespace Wrote

variable [FileStore σ] {s s' : σ} {options : GenerateOptions} {package : Text}
  (h : Wrote s s' options package)
include h

theorem isWord_package : Go.IsWord package := DirectoryScan.isWord_packageName h.packageName

omit h in
theorem names_wrappedFunctions {fs : FileSystem} {f : WrappedFunction} (hf : f ∈ wrappedFunctions fs options) :
    Go.IsWord f.name ∧ CommandName.isExported f.name :=
  DirectoryScan.isWord_of_mem_functions ((DirectoryScan.mem_eligible _ f).mp hf).1

end Wrote

end Generate

end GoCommands
