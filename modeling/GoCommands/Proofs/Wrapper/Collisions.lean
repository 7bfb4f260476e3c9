import GoCommands.Proofs.FileSystem.Memory
import GoCommands.Proofs.Wrapper.Declarations
import GoCommands.Proofs.Wrapper.Planning
import Mathlib.Data.List.Nodup

/-! # Name collisions of generated types

The check before the write compares wrapper types with declared types. Nothing compares them with the
functions of the package or with each other, and that is all that can go wrong.
-/

namespace GoCommands

namespace Wrapper

def typeNames (functions : List WrappedFunction) : List Text := functions.map fun f => typeName f.name

theorem typeName_injective {f g : Text} (h : typeName f = typeName g) : f = g := List.append_cancel_right h

theorem nodup_typeNames_iff (functions : List WrappedFunction) :
    (typeNames functions).Nodup ↔ (functions.map WrappedFunction.name).Nodup := by
  have hMap : typeNames functions = (functions.map WrappedFunction.name).map typeName := by
    rw [typeNames, List.map_map]
    rfl
  rw [hMap, List.nodup_map_iff fun _ _ => typeName_injective]

theorem names_wrapperSpec (functions : List WrappedFunction) :
    (functions.map wrapperSpec).map Go.TypeSpec.name = typeNames functions := by
  rw [List.map_map]
  rfl

end Wrapper

/-- The type names differ from each other and from all that some files declare at the top level. -/
structure CollisionFree (names : List Text) (units : List ScannedFile) : Prop where
  nodup : names.Nodup
  functions : ∀ name ∈ names, ∀ unit ∈ units, name ∉ unit.2.functions.map Go.FunctionDecl.name
  types : ∀ name ∈ names, ∀ unit ∈ units, name ∉ unit.2.typeSpecs.map Go.TypeSpec.name

/-- A run that writes a file declares one wrapper type for each function that it wraps. These types are
free of collisions exactly if no two of the functions have the same name and none of their wrapper types
has the name of a function. -/
theorem collisionFree_iff [FileStore σ] {s s' : σ} {options : GenerateOptions} {path : Path}
    (hRun : generate s options = (s', .ok (some path))) :
    let functions := Generate.wrappedFunctions (FileStore.view s) options
    let units := TaggedFile.parsed (Generate.scannedFiles (FileStore.view s) options)
    (∃ package, path = Generate.outputPath options package ∧
      let text := Layout.normalize (Wrapper.unit package options.buildTag functions)
      FileStore.writeFile s path (Utf8.encode text) Generate.fileMode = (s', .ok ()) ∧
      ((∀ tag ∈ options.buildTag, '\n' ∉ tag) → ∃ file, Go.SourceFile.parse text = some file ∧
        file.typeSpecs.map Go.TypeSpec.name = Wrapper.typeNames functions)) ∧
    (CollisionFree (Wrapper.typeNames functions) units ↔
      (functions.map WrappedFunction.name).Nodup ∧
        ∀ f ∈ functions, ∀ unit ∈ units, ∀ g ∈ unit.2.functions, g.name ≠ Wrapper.typeName f.name) := by
  intro functions units
  obtain ⟨package, rfl, hWrote⟩ := Generate.exists_wrote hRun
  constructor
  · refine ⟨package, rfl, hWrote.written, fun hTag => ?_⟩
    obtain ⟨file, hParse, -, hSpecs, -⟩ := Wrapper.parse_normalize_unit hWrote.isWord_package hTag
      (fun f hf => Generate.Wrote.names_wrappedFunctions hf)
    refine ⟨file, hParse, ?_⟩
    rw [hSpecs, Wrapper.names_wrapperSpec]
  · constructor
    · intro h
      refine ⟨(Wrapper.nodup_typeNames_iff functions).mp h.nodup, fun f hf unit hUnit g hg hName => ?_⟩
      exact h.functions _ (List.mem_map_of_mem hf) unit hUnit (List.mem_map.mpr ⟨g, hg, hName⟩)
    · rintro ⟨hNodup, hFunctions⟩
      refine ⟨(Wrapper.nodup_typeNames_iff functions).mpr hNodup, ?_, ?_⟩
      · intro name hName unit hUnit hMem
        obtain ⟨f, hf, rfl⟩ := List.mem_map.mp hName
        obtain ⟨g, hg, hEq⟩ := List.mem_map.mp hMem
        exact hFunctions f hf unit hUnit g hg hEq
      · intro name hName unit hUnit hMem
        obtain ⟨f, hf, rfl⟩ := List.mem_map.mp hName
        obtain ⟨spec, hSpec, hEq⟩ := List.mem_map.mp hMem
        exact hWrote.fresh f hf ((DirectoryScan.mem_typeNames_ofFiles _ _).mpr ⟨unit, hUnit, spec, hSpec, hEq⟩)

/-- Two functions, of which one has the name of the wrapper type of the other. -/
def clashingFiles : MemoryFiles :=
  MemoryFiles.empty.addFile "ops/a.go".toList
    (Utf8.encode "package ops\n\nfunc Build() {}\n\nfunc BuildCommand() {}\n".toList)

def clashingOptions : GenerateOptions := ⟨"ops".toList, none, false⟩

def clashingScan : DirectoryScan where
  sourceFiles := ["ops/a.go".toList]
  packageName := some "ops".toList
  typeNames := []
  claimedNames := []
  functions := [⟨"Build".toList, none, ⟨false, false⟩⟩, ⟨"BuildCommand".toList, none, ⟨false, false⟩⟩]

theorem eligible_clashingScan : clashingScan.eligible = clashingScan.functions :=
  DirectoryScan.eligible_of_unclaimed rfl (by decide)

def clashingPath : Path := "ops/generated_gantry_ops.go".toList

theorem read_clashingFiles :
    DirectoryScan.ofDirectory clashingFiles.fileSystem "ops".toList none = .ok clashingScan ∧
      (Go.SourceFile.parse (Wrapper.unit "ops".toList none clashingScan.functions)).isSome ∧
      Generate.outputPath clashingOptions "ops".toList = clashingPath ∧
      (Path.normalize clashingPath).directory.any clashingFiles.isDir := by
  decide +kernel

def clashedFiles : MemoryFiles :=
  (clashingFiles.writeFile clashingPath (Utf8.encode (Layout.normalize
    (Wrapper.unit "ops".toList none clashingScan.functions))) Generate.fileMode).1

theorem generate_clashingFiles :
    generate clashingFiles clashingOptions = (clashedFiles, .ok (some clashingPath)) := by
  obtain ⟨hScan, hParse, hPath, hDirectory⟩ := read_clashingFiles
  exact Generate.generate_of_unclaimed rfl hScan (by decide) rfl rfl rfl (by decide) (by decide) hParse hPath
    (MemoryFiles.writeFile_of_isDir hDirectory _ _)

/-- A wrapper type is written although a function has its name. -/
theorem exists_collision : ∃ (s s' : MemoryFiles) (options : GenerateOptions) (path : Path),
    generate s options = (s', .ok (some path)) ∧
      ¬ CollisionFree (Wrapper.typeNames (Generate.wrappedFunctions (FileStore.view s) options))
        (TaggedFile.parsed (Generate.scannedFiles (FileStore.view s) options)) := by
  refine ⟨clashingFiles, clashedFiles, clashingOptions, clashingPath, generate_clashingFiles, fun h => ?_⟩
  obtain ⟨-, -, hFiles⟩ := (Generate.ofDirectory_eq_iff _ clashingOptions _).mp read_clashingFiles.1
  have hBuild : (⟨"Build".toList, none, ⟨false, false⟩⟩ : WrappedFunction) ∈
      Generate.wrappedFunctions (FileStore.view clashingFiles) clashingOptions := by
    show _ ∈ (DirectoryScan.ofFiles (Generate.scannedFiles clashingFiles.fileSystem clashingOptions)).eligible
    rw [← hFiles, eligible_clashingScan]
    exact .head _
  have hSecond : (⟨"BuildCommand".toList, none, ⟨false, false⟩⟩ : WrappedFunction) ∈
      (DirectoryScan.ofFiles (Generate.scannedFiles clashingFiles.fileSystem clashingOptions)).functions := by
    rw [← hFiles]
    exact .tail _ (.head _)
  obtain ⟨unit, hUnit, item, hItem, g, hFunction, hName, -⟩ :=
    DirectoryScan.exists_item_of_mem_functions hSecond
  refine h.functions _ (List.mem_map_of_mem hBuild) unit hUnit (List.mem_map.mpr ⟨g, ?_, hName⟩)
  exact List.mem_filterMap.mpr ⟨item, hItem, hFunction⟩

theorem collisionFree_iff_clashingFiles :
    let functions := Generate.wrappedFunctions (FileStore.view clashingFiles) clashingOptions
    let units := TaggedFile.parsed (Generate.scannedFiles (FileStore.view clashingFiles) clashingOptions)
    (∃ package, clashingPath = Generate.outputPath clashingOptions package ∧
      let text := Layout.normalize (Wrapper.unit package clashingOptions.buildTag functions)
      FileStore.writeFile clashingFiles clashingPath (Utf8.encode text) Generate.fileMode =
        (clashedFiles, .ok ()) ∧
      ((∀ tag ∈ clashingOptions.buildTag, '\n' ∉ tag) → ∃ file, Go.SourceFile.parse text = some file ∧
        file.typeSpecs.map Go.TypeSpec.name = Wrapper.typeNames functions)) ∧
    (CollisionFree (Wrapper.typeNames functions) units ↔
      (functions.map WrappedFunction.name).Nodup ∧
        ∀ f ∈ functions, ∀ unit ∈ units, ∀ g ∈ unit.2.functions, g.name ≠ Wrapper.typeName f.name) :=
  collisionFree_iff generate_clashingFiles

end GoCommands
