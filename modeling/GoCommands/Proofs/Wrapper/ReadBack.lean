import GoCommands.Proofs.Constraint.Atom
import GoCommands.Proofs.Package.Scanning
import GoCommands.Proofs.Text.Lookup
import GoCommands.Proofs.Wrapper.Collisions

/-! # Scanning generated source

A package scan of a generated file finds the wrapper types with the methods that run them, and every such method
has the shape of the function that it calls.
-/

namespace GoCommands.Wrapper

open Go

theorem invocation_runSignature {i : Invocation} {context : ContextImport}
    (h : i.usesContext → context = .named contextPackage) : (runSignature i).invocation context = .ok i := by
  obtain ⟨usesContext, returnsError⟩ := i
  cases usesContext with
  | false => cases returnsError <;> rfl
  | true =>
    rw [h rfl]
    cases returnsError <;> rfl

theorem isExported_typeName {name : Text} (h : CommandName.isExported name) :
    CommandName.isExported (typeName name) := by
  cases name with
  | nil => cases h
  | cons c cs => exact h

section

variable {file : SourceFile} {package : Text} {functions : List WrappedFunction}
  (h : file.declarations = unitDeclarations package functions)
include h

theorem contextImport_unit {f : WrappedFunction} (hf : f ∈ functions) (hUses : f.invocation.usesContext) :
    file.contextImport = .named contextPackage := by
  have hAny : functions.any (·.invocation.usesContext) = true := List.any_eq_true.mpr ⟨f, hf, hUses⟩
  have hImports : file.imports = [⟨.none, .string (quote contextPackage)⟩] := by
    rw [SourceFile.imports, h, unitDeclarations, importDeclarations, if_pos hAny, List.flatMap_append,
      List.flatMap_assoc]
    apply List.append_right_eq_self.mpr
    rw [List.flatMap_eq_nil_iff]
    intro f _
    rw [wrapperDeclarations, descriptionDeclarations]
    cases f.description <;> rfl
  have hPath : (stringValue (.string (quote contextPackage)) == some contextPackage) = true := by decide
  rw [SourceFile.contextImport, hImports, List.foldl_cons, hPath]
  rfl

theorem function?_eq_none {item : Item} (hItem : item ∈ file.items) : item.function? = none := by
  have hNone := functions_unit h
  rw [SourceFile.functions, List.filterMap_eq_nil_iff] at hNone
  exact hNone item hItem

theorem callable_unit : file.Callable := by
  intro item hItem f hFunction
  have hNone := function?_eq_none h hItem
  rw [Item.function?, hFunction] at hNone
  cases hNone

theorem candidates_unit (path : Path) (hNames : ∀ f ∈ functions, CommandName.isExported f.name) :
    file.items.flatMap (Item.candidates file.contextImport path) =
      functions.map fun f => .type (typeName f.name) path false := by
  have hTypes : ∀ item ∈ file.items, item.candidates file.contextImport path =
      item.candidateTypes.map fun spec => .type spec.name path !spec.links.isEmpty := by
    intro item hItem
    rw [Item.candidates, Item.command?, function?_eq_none h hItem]
    exact List.append_nil _
  rw [List.flatMap_congr hTypes, flatMap_items h (fun _ => rfl) rfl (fun _ => rfl), List.map_eq_flatMap]
  refine List.flatMap_congr fun f hf => ?_
  have hCandidate : (wrapperSpec f).isCandidate = true := isExported_typeName (hNames f hf)
  have hType : Item.candidateTypes ⟨[], false, .types [wrapperSpec f]⟩ = [wrapperSpec f] :=
    List.filter_cons_of_pos hCandidate
  rw [wrapperDeclarations, descriptionDeclarations, List.cons_append, List.flatMap_cons, hType]
  cases f.description <;> rfl

theorem links_unit : file.items.flatMap (fun item => item.candidateTypes.flatMap TypeSpec.links) = [] := by
  rw [List.flatMap_eq_nil_iff]
  intro item hItem
  rw [List.flatMap_eq_nil_iff]
  intro spec hSpec
  have hSpecs : spec ∈ file.typeSpecs :=
    List.mem_flatMap.mpr ⟨item, hItem, List.mem_of_mem_filter hSpec⟩
  rw [typeSpecs_unit h] at hSpecs
  obtain ⟨f, -, rfl⟩ := List.mem_map.mp hSpecs
  rfl

theorem entryPoints_unit (path : Path) :
    file.items.flatMap (fun item => if item.isEntryPoint then [path] else []) = [] := by
  rw [List.flatMap_eq_nil_iff]
  intro item hItem
  rw [Item.isEntryPoint, function?_eq_none h hItem]
  rfl

theorem runMethods_unit : file.items.flatMap (fun item => (item.runMethod? file.contextImport).toList) =
    functions.map fun f => (typeName f.name, f.invocation) := by
  rw [flatMap_items h (fun _ => rfl) rfl (fun _ => rfl), List.map_eq_flatMap]
  refine List.flatMap_congr fun f hf => ?_
  have hInvocation := invocation_runSignature fun hUses => contextImport_unit h hf hUses
  have hRun : PackageScan.runInvocation file.contextImport (runDecl f) = f.invocation := by
    rw [PackageScan.runInvocation, runDecl, hInvocation]
  have hMethod : Item.runMethod? file.contextImport ⟨[], false, .method (runDecl f)⟩ =
      some (typeName f.name, f.invocation) := by
    rw [← hRun]
    rfl
  rw [wrapperDeclarations, descriptionDeclarations]
  simp only [List.cons_append, List.flatMap_cons, hMethod]
  cases f.description <;> rfl

theorem runMethod_unit (hDistinct : (functions.map WrappedFunction.name).Nodup) (dir path : Path)
    {f : WrappedFunction} (hf : f ∈ functions) :
    ((PackageScan.new dir).recorded (path, file)).runMethod (typeName f.name) = some f.invocation := by
  have hMethods : ((PackageScan.new dir).recorded (path, file)).runMethods =
      (functions.map fun f => (typeName f.name, f.invocation)).reverse := by
    rw [PackageScan.runMethods_recorded, runMethods_unit h]
    exact List.append_nil _
  have hOnce : (functions.map fun f => (typeName f.name, f.invocation)).reverse.countP
      (fun entry => entry.1 == typeName f.name) ≤ 1 := by
    have hCount := List.nodup_iff_count_le_one.mp ((nodup_typeNames_iff functions).mpr hDistinct) (typeName f.name)
    rw [typeNames, List.count, List.countP_map] at hCount
    rw [List.countP_reverse, List.countP_map]
    exact hCount
  -- The list is in reverse order, and a lookup takes the first entry; there is no second one.
  rw [PackageScan.runMethod, hMethods, lookup_eq_some_iff_mem hOnce, List.mem_reverse]
  exact List.mem_map.mpr ⟨f, hf, rfl⟩

end

/-- The unit can be formatted, and a scan of what comes out records the package, one wrapper type for each function
in their order, a method that runs each of them as its function is called, and nothing else. -/
theorem scanFile_format {package : Text} {tag : Option Text} {functions : List WrappedFunction}
    (hPackage : IsWord package) (hTag : ∀ t ∈ tag, Constraint.IsAtom t)
    (hNames : ∀ f ∈ functions, IsWord f.name ∧ CommandName.isExported f.name)
    (hDistinct : (functions.map WrappedFunction.name).Nodup) (dir path : Path) :
    ∃ text s, Layout.format? (unit package tag functions) = some text ∧ (SourceFile.parse text).isSome ∧
      (PackageScan.new dir).scanFile ⟨path, text⟩ = (s, none) ∧ s.packageName = some package ∧
      s.candidates = functions.map (fun f => .type (typeName f.name) path false) ∧
      (∀ f ∈ functions, s.runMethod (typeName f.name) = some f.invocation) ∧ s.links = [] ∧ s.entryPoints = [] := by
  have hWords : ∀ f ∈ functions, IsWord f.name := fun f hf => (hNames f hf).1
  have hClean : ∀ t ∈ tag, '\n' ∉ t := fun t ht => (hTag t ht).not_mem_of_isWhite (by decide)
  obtain ⟨before, hBefore, -⟩ := parse_file ⟨_, _, rfl, rfl⟩ spaced_gap hPackage hClean hNames
  obtain ⟨file, hParse, hDeclared⟩ := parse_file ⟨_, _, rfl, rfl⟩ spaced_newLine hPackage hClean hNames
  have hFormat : Layout.format? (unit package tag functions) =
      some (textOf (fileLexemes newLine package tag functions)) := by
    rw [← unit_eq_textOf package functions fun t ht => (hTag t ht).trimEnd_append _] at hBefore
    rw [Layout.format?, hBefore, normalize_unit hPackage hClean hWords]
    rfl
  have hScan : (PackageScan.new dir).scanFile ⟨path, textOf (fileLexemes newLine package tag functions)⟩ =
      ((PackageScan.new dir).recorded (path, file), none) := by
    refine (PackageScan.scanFile_ok_iff _ _ _).mpr ⟨file, hParse, ⟨package, packageName_unit hDeclared, ?_⟩, ?_, rfl⟩
    · exact fun _ hExisting => absurd hExisting (Option.not_mem_none _)
    · exact callable_unit hDeclared
  refine ⟨_, _, hFormat, Option.isSome_of_eq_some hParse, hScan, ?_, ?_, ?_, ?_, ?_⟩
  · rw [PackageScan.packageName_recorded, packageName_unit hDeclared]
    rfl
  · rw [PackageScan.candidates_recorded, candidates_unit hDeclared path fun f hf => (hNames f hf).2]
    rfl
  · exact fun f hf => runMethod_unit hDeclared hDistinct dir path hf
  · rw [PackageScan.links_recorded, links_unit hDeclared]
    rfl
  · rw [PackageScan.entryPoints_recorded, entryPoints_unit hDeclared]
    rfl

/-- Functions of both shapes, one with a description that has to be quoted. -/
def sampleFunctions : List WrappedFunction :=
  [⟨"Build".toList, some "Builds \"all\"\n\tand // more.".toList, ⟨true, true⟩⟩, ⟨"Test".toList, none, ⟨false, false⟩⟩]

theorem scanFile_format_sampleFunctions :
    ∃ text s, Layout.format? (unit "ops".toList (some "gantry".toList) sampleFunctions) = some text ∧
      (SourceFile.parse text).isSome ∧
      (PackageScan.new "ops".toList).scanFile ⟨"ops/generated_gantry_ops.go".toList, text⟩ = (s, none) ∧
      s.packageName = some "ops".toList ∧
      s.candidates = sampleFunctions.map
        (fun f => .type (typeName f.name) "ops/generated_gantry_ops.go".toList false) ∧
      (∀ f ∈ sampleFunctions, s.runMethod (typeName f.name) = some f.invocation) ∧ s.links = [] ∧
      s.entryPoints = [] := by
  have hPackage : IsWord "ops".toList := isWord_of_all (by decide) (by decide) (by decide)
  have hTag : ∀ t ∈ some "gantry".toList, Constraint.IsAtom t := by
    rintro t ⟨⟩
    exact ⟨by decide, List.all_eq_true.mp (by decide)⟩
  have hNames : ∀ f ∈ sampleFunctions, IsWord f.name ∧ CommandName.isExported f.name := by
    rw [sampleFunctions, List.forall_mem_cons, List.forall_mem_singleton]
    exact ⟨⟨isWord_of_all (by decide) (by decide) (by decide), by decide⟩,
      isWord_of_all (by decide) (by decide) (by decide), by decide⟩
  exact scanFile_format hPackage hTag hNames (by decide) _ _

end GoCommands.Wrapper
