import GoCommands.Proofs.Fold
import GoCommands.Proofs.Go.Declared

/-! # What a package scan records

A file is recorded whole or the scan stops at its first bad function. What a file adds does not depend
on the files before it.
-/

namespace GoCommands

/-- The type is one that a package scan looks at: an exported struct type that is no alias. -/
def Go.TypeSpec.isCandidate (spec : Go.TypeSpec) : Bool :=
  match spec.type with
  | .struct _ _ => !spec.isAlias && CommandName.isExported spec.name
  | _ => false

namespace Go.Item

def candidateTypes (item : Item) : List TypeSpec := item.typeSpecs.filter TypeSpec.isCandidate

/-- The candidates of an item: its struct types or its function. -/
def candidates (context : ContextImport) (path : Path) (item : Item) : List Candidate :=
  (item.candidateTypes.map fun spec => .type spec.name path !spec.links.isEmpty) ++
    (item.command? context).toList.map fun (f, invocation) =>
      .function f.name path (item.doc.getD []) invocation

/-- The receiver of the `Run` method that an item declares. -/
def runMethod? (context : ContextImport) (item : Item) : Option (Text × Invocation) :=
  match item.declaration with
  | .method m =>
    if m.name == PackageScan.runMethodName then
      (receiverName m.receiver).map fun receiver => (receiver, PackageScan.runInvocation context m)
    else none
  | _ => none

/-- The receiver of the constant `Description` method that an item declares, with its text. -/
def description? (item : Item) : Option (Text × Text) :=
  match item.declaration with
  | .method m =>
    if m.name == PackageScan.runMethodName then none
    else if m.name == PackageScan.descriptionMethodName then
      (receiverName m.receiver).bind fun receiver =>
        m.constantString.map fun text => (receiver, Text.trim text)
    else none
  | _ => none

/-- The item is a function that starts a program. -/
def isEntryPoint (item : Item) : Bool := item.function?.any fun f => f.name == PackageScan.entryPointName

end Go.Item

namespace PackageScan

theorem recordType_eq (s : PackageScan) (path : Path) (spec : Go.TypeSpec) :
    s.recordType path spec =
      if spec.isCandidate then
        { s with
          links := s.links ++ spec.links
          candidates := s.candidates ++ [.type spec.name path !spec.links.isEmpty] }
      else s := by
  rw [recordType, Go.TypeSpec.isCandidate, Go.TypeSpec.links]
  cases spec.type <;> rfl

theorem foldl_recordType (path : Path) (specs : List Go.TypeSpec) (s : PackageScan) :
    specs.foldl (·.recordType path) s =
      { s with
        links := s.links ++ (specs.filter Go.TypeSpec.isCandidate).flatMap Go.TypeSpec.links
        candidates := s.candidates ++ (specs.filter Go.TypeSpec.isCandidate).map fun spec =>
          .type spec.name path !spec.links.isEmpty } := by
  induction specs generalizing s with
  | nil => simp
  | cons spec specs ih =>
    rw [List.foldl_cons, ih, recordType_eq]
    by_cases h : spec.isCandidate <;> simp [h]

def recordedItem (s : PackageScan) (context : Go.ContextImport) (path : Path) (item : Go.Item) : PackageScan :=
  { s with
    candidates := s.candidates ++ item.candidates context path
    links := s.links ++ item.candidateTypes.flatMap Go.TypeSpec.links
    runMethods := (item.runMethod? context).toList ++ s.runMethods
    descriptions := item.description?.toList ++ s.descriptions
    entryPoints := s.entryPoints ++ if item.isEntryPoint then [path] else [] }

theorem not_isExported_entryPoint : CommandName.isExported entryPointName = false := by decide

theorem recordMethod_eq (s : PackageScan) (context : Go.ContextImport) (path : Path) (item : Go.Item)
    (m : Go.MethodDecl) (h : item.declaration = .method m) :
    s.recordMethod context m = s.recordedItem context path item := by
  rw [recordMethod]
  simp only [recordedItem, Go.Item.candidates, Go.Item.candidateTypes, Go.Item.typeSpecs, Go.Item.command?,
    Go.Item.function?, Go.Item.runMethod?, Go.Item.description?, Go.Item.isEntryPoint, h]
  cases Go.receiverName m.receiver with
  | none => simp
  | some receiver =>
    by_cases hRun : m.name == runMethodName
    · simp [hRun]
    · by_cases hDescription : m.name == descriptionMethodName
      · cases m.constantString <;> simp [hRun, hDescription]
      · simp [hRun, hDescription]

theorem recordItem_ok_iff (s s' : PackageScan) (context : Go.ContextImport) (path : Path) (item : Go.Item) :
    s.recordItem context path item = .ok s' ↔
      item.Callable context ∧ s' = s.recordedItem context path item := by
  rw [recordItem]
  cases h : item.declaration with
  | types specs =>
    have hItem : specs.foldl (·.recordType path) s = s.recordedItem context path item := by
      rw [foldl_recordType]
      simp [recordedItem, Go.Item.candidates, Go.Item.candidateTypes, Go.Item.typeSpecs, Go.Item.command?,
        Go.Item.function?, Go.Item.runMethod?, Go.Item.description?, Go.Item.isEntryPoint, h]
    simp [hItem, Go.Item.Callable, h, @eq_comm _ s']
  | method m =>
    simp [recordMethod_eq s context path item m h, Go.Item.Callable, h, @eq_comm _ s']
  | function f =>
    simp only [recordFunction, recordedItem, Go.Item.candidates, Go.Item.candidateTypes, Go.Item.typeSpecs,
      Go.Item.command?, Go.Item.function?, Go.Item.runMethod?, Go.Item.description?, Go.Item.isEntryPoint,
      Go.Item.Callable, h, Go.Declaration.function.injEq, forall_eq']
    by_cases hEntry : f.name = entryPointName
    · simp [hEntry, not_isExported_entryPoint, @eq_comm _ s']
    · by_cases hExported : CommandName.isExported f.name
      · cases hInvocation : f.signature.invocation context with
        | ok invocation => simp [hEntry, hExported, @eq_comm _ s', Except.toOption]
        | error problem => simp [hEntry, hExported]
      · simp [hEntry, hExported, @eq_comm _ s']
  | package _ | imports _ | other =>
    simp [recordedItem, Go.Item.candidates, Go.Item.candidateTypes, Go.Item.typeSpecs, Go.Item.command?,
      Go.Item.function?, Go.Item.runMethod?, Go.Item.description?, Go.Item.isEntryPoint, Go.Item.Callable, h,
      @eq_comm _ s']

/-- The items of a file are recorded up to the first bad function; without one, all of them are. -/
theorem recordItems_ok_iff (context : Go.ContextImport) (path : Path) (items : List Go.Item)
    (s s' : PackageScan) :
    s.recordItems context path items = (s', none) ↔
      (∀ item ∈ items, item.Callable context) ∧
        s' = items.foldl (fun s item => s.recordedItem context path item) s := by
  induction items generalizing s with
  | nil => simp [recordItems, eq_comm]
  | cons item items ih =>
    rw [recordItems, List.forall_mem_cons, List.foldl_cons]
    cases hItem : s.recordItem context path item with
    | error e =>
      refine iff_of_false (by simp) fun ⟨⟨hCallable, _⟩, _⟩ => ?_
      rw [(recordItem_ok_iff s _ context path item).mpr ⟨hCallable, rfl⟩] at hItem
      cases hItem
    | ok t =>
      obtain ⟨hCallable, rfl⟩ := (recordItem_ok_iff s t context path item).mp hItem
      rw [and_iff_right hCallable]
      exact ih _

/-- The scan after the package clause of a file has been recorded. -/
def recordedPackage (s : PackageScan) (unit : Go.SourceFile) : PackageScan :=
  match s.packageName with
  | none => { s with packageName := unit.packageName, doc := unit.packageDoc.getD [] }
  | some _ => s

theorem recordPackage_ok_iff (s s' : PackageScan) (path : Path) (unit : Go.SourceFile) :
    s.recordPackage path unit = .ok s' ↔
      (∃ name, unit.packageName = some name ∧ ∀ existing ∈ s.packageName, existing = name) ∧
        s' = s.recordedPackage unit := by
  rw [recordPackage, recordedPackage]
  cases unit.packageName with
  | none => simp
  | some name =>
    cases s.packageName with
    | none => simp [@eq_comm _ s']
    | some existing =>
      by_cases hEq : existing = name
      · simp [hEq, @eq_comm _ s']
      · simp [hEq]

def recorded (s : PackageScan) (unit : ScannedFile) : PackageScan :=
  unit.2.items.foldl (fun s item => s.recordedItem unit.2.contextImport unit.1 item)
    (s.recordedPackage unit.2)

theorem scanFile_ok_iff (s s' : PackageScan) (file : TaggedFile) :
    s.scanFile file = (s', none) ↔ ∃ unit, Go.SourceFile.parse file.content = some unit ∧
      (∃ name, unit.packageName = some name ∧ ∀ existing ∈ s.packageName, existing = name) ∧
      unit.Callable ∧ s' = s.recorded (file.path, unit) := by
  rw [scanFile]
  cases Go.SourceFile.parse file.content with
  | none => simp
  | some unit =>
    simp only [Option.some.injEq, exists_eq_left']
    cases hPackage : s.recordPackage file.path unit with
    | error e =>
      refine iff_of_false (by simp) fun h => ?_
      rw [(recordPackage_ok_iff s _ file.path unit).mpr ⟨h.1, rfl⟩] at hPackage
      cases hPackage
    | ok t =>
      obtain ⟨hAgree, rfl⟩ := (recordPackage_ok_iff s t file.path unit).mp hPackage
      rw [and_iff_right hAgree]
      exact recordItems_ok_iff _ _ _ _ _

theorem foldl_recordedItem (context : Go.ContextImport) (path : Path) (items : List Go.Item) (s : PackageScan) :
    items.foldl (fun s item => s.recordedItem context path item) s =
      { s with
        candidates := s.candidates ++ items.flatMap (Go.Item.candidates context path)
        links := s.links ++ items.flatMap fun item => item.candidateTypes.flatMap Go.TypeSpec.links
        runMethods := (items.flatMap fun item => (item.runMethod? context).toList).reverse ++ s.runMethods
        descriptions := (items.flatMap fun item => item.description?.toList).reverse ++ s.descriptions
        entryPoints := s.entryPoints ++ items.flatMap fun item => if item.isEntryPoint then [path] else [] } := by
  induction items generalizing s with
  | nil => simp
  | cons item items ih =>
    rw [List.foldl_cons, ih, recordedItem]
    cases hRun : item.runMethod? context <;> cases hDescription : item.description? <;> simp [hRun, hDescription]

theorem recordedPackage_eq (s : PackageScan) (unit : Go.SourceFile) :
    s.recordedPackage unit =
      { s with
        packageName := s.packageName.or unit.packageName
        doc := (s.recordedPackage unit).doc } := by
  rw [recordedPackage]
  cases hName : s.packageName with
  | none => rfl
  | some name => exact congrArg (fun packageName => { s with packageName }) hName

theorem candidates_recorded (s : PackageScan) (unit : ScannedFile) :
    (s.recorded unit).candidates =
      s.candidates ++ unit.2.items.flatMap (Go.Item.candidates unit.2.contextImport unit.1) := by
  rw [recorded, foldl_recordedItem, recordedPackage_eq]

theorem links_recorded (s : PackageScan) (unit : ScannedFile) :
    (s.recorded unit).links =
      s.links ++ unit.2.items.flatMap fun item => item.candidateTypes.flatMap Go.TypeSpec.links := by
  rw [recorded, foldl_recordedItem, recordedPackage_eq]

theorem runMethods_recorded (s : PackageScan) (unit : ScannedFile) :
    (s.recorded unit).runMethods =
      (unit.2.items.flatMap fun item => (item.runMethod? unit.2.contextImport).toList).reverse ++ s.runMethods := by
  rw [recorded, foldl_recordedItem, recordedPackage_eq]

theorem descriptions_recorded (s : PackageScan) (unit : ScannedFile) :
    (s.recorded unit).descriptions =
      (unit.2.items.flatMap fun item => item.description?.toList).reverse ++ s.descriptions := by
  rw [recorded, foldl_recordedItem, recordedPackage_eq]

theorem entryPoints_recorded (s : PackageScan) (unit : ScannedFile) :
    (s.recorded unit).entryPoints =
      s.entryPoints ++ unit.2.items.flatMap fun item => if item.isEntryPoint then [unit.1] else [] := by
  rw [recorded, foldl_recordedItem, recordedPackage_eq]

theorem packageName_recorded (s : PackageScan) (unit : ScannedFile) :
    (s.recorded unit).packageName = s.packageName.or unit.2.packageName := by
  rw [recorded, foldl_recordedItem, recordedPackage_eq]

theorem dir_recorded (s : PackageScan) (unit : ScannedFile) : (s.recorded unit).dir = s.dir := by
  rw [recorded, foldl_recordedItem, recordedPackage_eq]

/-- A file that can be scanned among files of the package with this name. -/
def Fits (name : Text) (file : TaggedFile) : Prop :=
  ∃ unit, Go.SourceFile.parse file.content = some unit ∧ unit.packageName = some name ∧ unit.Callable

theorem scanFiles_ok_iff (files : List TaggedFile) (s s' : PackageScan) :
    s.scanFiles files = .ok s' ↔
      (∃ name, (∀ existing ∈ s.packageName, existing = name) ∧ ∀ file ∈ files, Fits name file) ∧
        s' = (TaggedFile.parsed files).foldl recorded s := by
  induction files generalizing s with
  | nil =>
    have hName : ∃ name, ∀ existing ∈ s.packageName, existing = name :=
      ⟨s.packageName.getD [], fun existing h => by rw [Option.mem_def.mp h, Option.getD_some]⟩
    simpa [scanFiles, TaggedFile.parsed, @eq_comm _ s'] using fun _ => hName
  | cons file rest ih =>
    -- From this file on the scan has the package name that all files must have.
    have hNext : ∀ {unit : Go.SourceFile} {name : Text}, unit.packageName = some name →
        (∀ existing ∈ s.packageName, existing = name) → (s.recorded (file.path, unit)).packageName = some name := by
      intro unit name hUnit hName
      rw [packageName_recorded, hUnit]
      cases hScan : s.packageName with
      | none => rfl
      | some existing => rw [hName existing hScan, Option.some_or]
    rw [scanFiles]
    constructor
    · intro h
      split at h
      · rename_i t hFile
        obtain ⟨unit, hParse, ⟨name, hUnit, hName⟩, hCallable, rfl⟩ := (scanFile_ok_iff s t file).mp hFile
        obtain ⟨⟨name', hName', hRest⟩, rfl⟩ := (ih _).mp h
        obtain rfl := hName' name (hNext hUnit hName)
        refine ⟨⟨name, hName, List.forall_mem_cons.mpr ⟨⟨unit, hParse, hUnit, hCallable⟩, hRest⟩⟩, ?_⟩
        rw [TaggedFile.parsed_cons hParse, List.foldl_cons]
      · cases h
    · rintro ⟨⟨name, hName, hFits⟩, hScanned⟩
      obtain ⟨⟨unit, hParse, hUnit, hCallable⟩, hRest⟩ := List.forall_mem_cons.mp hFits
      have hFile := (scanFile_ok_iff s _ file).mpr ⟨unit, hParse, ⟨name, hUnit, hName⟩, hCallable, rfl⟩
      rw [TaggedFile.parsed_cons hParse, List.foldl_cons] at hScanned
      rw [hFile]
      refine (ih _).mpr ⟨⟨name, fun existing hExisting => ?_, hRest⟩, hScanned⟩
      rw [hNext hUnit hName] at hExisting
      exact (Option.some.inj hExisting).symm

theorem scanFiles_ok {files : List TaggedFile} {s s' : PackageScan} (h : s.scanFiles files = .ok s') :
    s' = (TaggedFile.parsed files).foldl recorded s :=
  ((scanFiles_ok_iff files s s').mp h).2

theorem candidates_foldl_recorded (units : List ScannedFile) (s : PackageScan) :
    (units.foldl recorded s).candidates = s.candidates ++
      units.flatMap fun unit => unit.2.items.flatMap (Go.Item.candidates unit.2.contextImport unit.1) :=
  field_foldl_append candidates_recorded units s

theorem links_foldl_recorded (units : List ScannedFile) (s : PackageScan) :
    (units.foldl recorded s).links = s.links ++
      units.flatMap fun unit => unit.2.items.flatMap fun item =>
        item.candidateTypes.flatMap Go.TypeSpec.links :=
  field_foldl_append links_recorded units s

end PackageScan

end GoCommands
