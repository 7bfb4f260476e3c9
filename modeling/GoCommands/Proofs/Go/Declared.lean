import GoCommands.Package.Scan

/-! # What the files of a package declare

Both scans of a package walk the items of each file in order. The parts of an item that they read are
named here, and the conditions under which a file can be scanned at all, which do not depend on the
files before it except through the package clause.
-/

namespace GoCommands

namespace Go

def Item.typeSpecs (item : Item) : List TypeSpec :=
  match item.declaration with
  | .types specs => specs
  | _ => []

def Item.function? (item : Item) : Option FunctionDecl :=
  match item.declaration with
  | .function f => some f
  | _ => none

/-- The function of an item, if it is exported, and how it is called. -/
def Item.command? (context : ContextImport) (item : Item) : Option (FunctionDecl × Invocation) :=
  match item.function? with
  | none => none
  | some f =>
    if CommandName.isExported f.name then
      (f.signature.invocation context).toOption.map fun invocation => (f, invocation)
    else none

/-- The item is no exported function that could not be called as a command. -/
def Item.Callable (context : ContextImport) (item : Item) : Prop :=
  ∀ f, item.declaration = .function f → CommandName.isExported f.name →
    ∃ invocation, f.signature.invocation context = .ok invocation

def TypeSpec.links (spec : TypeSpec) : List SubcommandLink := SubcommandLink.ofType spec.name spec.type

namespace SourceFile

def typeSpecs (f : SourceFile) : List TypeSpec := f.items.flatMap Item.typeSpecs

def functions (f : SourceFile) : List FunctionDecl := f.items.filterMap Item.function?

/-- Every exported function can be called as a command. -/
def Callable (f : SourceFile) : Prop := ∀ item ∈ f.items, item.Callable f.contextImport

end SourceFile

theorem Item.function?_eq_some_iff {item : Item} {f : FunctionDecl} :
    item.function? = some f ↔ item.declaration = .function f := by
  rw [function?]
  cases item.declaration <;> simp

theorem Item.command?_eq_some_iff (context : ContextImport) (item : Item) (f : FunctionDecl)
    (invocation : Invocation) :
    item.command? context = some (f, invocation) ↔ item.function? = some f ∧
      CommandName.isExported f.name ∧ f.signature.invocation context = .ok invocation := by
  rw [command?]
  cases item.function? with
  | none => simp
  | some g =>
    simp only [Option.some.injEq]
    by_cases hExported : CommandName.isExported g.name
    · rw [if_pos hExported]
      cases hInvocation : g.signature.invocation context with
      | ok i =>
        simp only [Except.toOption, Option.map_some, Option.some.injEq, Prod.mk.injEq]
        constructor
        · rintro ⟨rfl, rfl⟩
          exact ⟨rfl, hExported, hInvocation⟩
        · rintro ⟨rfl, -, hOk⟩
          exact ⟨rfl, Except.ok.inj (hInvocation.symm.trans hOk)⟩
      | error problem =>
        refine iff_of_false (by simp [Except.toOption]) ?_
        rintro ⟨rfl, -, hOk⟩
        rw [hInvocation] at hOk
        cases hOk
    · rw [if_neg hExported]
      refine iff_of_false (by simp) ?_
      rintro ⟨rfl, h, -⟩
      exact hExported h

end Go

/-- A source file with its path. -/
abbrev ScannedFile := Path × Go.SourceFile

/-- No two files have different package clauses. -/
def SamePackage (units : List ScannedFile) : Prop :=
  ∀ u ∈ units, ∀ v ∈ units, ∀ a ∈ u.2.packageName, ∀ b ∈ v.2.packageName, a = b

namespace TaggedFile

def parsed? (file : TaggedFile) : Option ScannedFile :=
  (Go.SourceFile.parse file.content).map fun unit => (file.path, unit)

/-- The files with their declarations; one that is no source file is left out. -/
def parsed (files : List TaggedFile) : List ScannedFile := files.filterMap parsed?

theorem parsed_cons {file : TaggedFile} {unit : Go.SourceFile}
    (h : Go.SourceFile.parse file.content = some unit) (rest : List TaggedFile) :
    parsed (file :: rest) = (file.path, unit) :: parsed rest := by
  simp [parsed, parsed?, h]

theorem mem_parsed (files : List TaggedFile) (unit : ScannedFile) :
    unit ∈ parsed files ↔ ∃ file ∈ files, Go.SourceFile.parse file.content = some unit.2 ∧
      file.path = unit.1 := by
  simp only [parsed, parsed?, List.mem_filterMap, Option.map_eq_some_iff]
  constructor
  · rintro ⟨file, hFile, found, hParse, rfl⟩
    exact ⟨file, hFile, hParse, rfl⟩
  · rintro ⟨file, hFile, hParse, hPath⟩
    exact ⟨file, hFile, unit.2, hParse, by rw [hPath]⟩

theorem parsed_subset {files more : List TaggedFile} (h : ∀ file ∈ files, file ∈ more) :
    ∀ unit ∈ parsed files, unit ∈ parsed more := by
  intro unit hUnit
  obtain ⟨file, hFile, hParse⟩ := List.mem_filterMap.mp hUnit
  exact List.mem_filterMap.mpr ⟨file, h file hFile, hParse⟩

end TaggedFile

end GoCommands
