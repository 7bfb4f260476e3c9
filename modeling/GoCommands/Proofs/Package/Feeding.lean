import GoCommands.Proofs.Package.CommandNames
import GoCommands.Proofs.Package.Failure

/-! # Scans that were fed files

The first source file with a package clause names the package of a scan. Of every source file of that package the
scan records what stands before the first function that it rejects, whether or not a file fails; it records
nothing of any other file.
-/

namespace GoCommands

/-- The package that the first clause among these files names. -/
def packageOf (units : List ScannedFile) : Option Text := units.findSome? fun unit => unit.2.packageName

def isOfPackage (package : Option Text) (unit : ScannedFile) : Bool :=
  unit.2.packageName.isSome && unit.2.packageName == package

/-- The source files of which a new scan records something when it is fed these files. -/
def TaggedFile.scanned (files : List TaggedFile) : List ScannedFile :=
  (parsed files).filter (isOfPackage (packageOf (parsed files)))

/-- The items of a file that a scan records. -/
def ScannedFile.reached (unit : ScannedFile) : List Go.Item := Go.reached unit.2.contextImport unit.2.items

namespace PackageScan

/-- The scan with what it records of a file of its package. -/
def recordedStart (s : PackageScan) (unit : ScannedFile) : PackageScan :=
  unit.reached.foldl (fun s item => s.recordedItem unit.2.contextImport unit.1 item) (s.recordedPackage unit.2)

theorem packageName_recordedStart (s : PackageScan) (unit : ScannedFile) :
    (s.recordedStart unit).packageName = s.packageName.or unit.2.packageName := by
  rw [recordedStart, foldl_recordedItem, recordedPackage_eq]

theorem candidates_recordedStart (s : PackageScan) (unit : ScannedFile) :
    (s.recordedStart unit).candidates =
      s.candidates ++ unit.reached.flatMap (Go.Item.candidates unit.2.contextImport unit.1) := by
  rw [recordedStart, foldl_recordedItem, recordedPackage_eq]

theorem descriptions_recordedStart (s : PackageScan) (unit : ScannedFile) :
    (s.recordedStart unit).descriptions =
      (unit.reached.flatMap fun item => item.description?.toList).reverse ++ s.descriptions := by
  rw [recordedStart, foldl_recordedItem, recordedPackage_eq]

theorem entryPoints_recordedStart (s : PackageScan) (unit : ScannedFile) :
    (s.recordedStart unit).entryPoints =
      s.entryPoints ++ unit.reached.flatMap fun item => if item.isEntryPoint then [unit.1] else [] := by
  rw [recordedStart, foldl_recordedItem, recordedPackage_eq]

theorem fst_scanFile (s : PackageScan) (file : TaggedFile) :
    (s.scanFile file).1 =
      match file.parsed? with
      | none => s
      | some unit => if isOfPackage (s.packageName.or unit.2.packageName) unit then s.recordedStart unit else s := by
  rw [TaggedFile.parsed?]
  cases hParse : Go.SourceFile.parse file.content with
  | none => rw [scanFile, hParse]; rfl
  | some unit =>
    rw [Option.map_some]
    cases hPackage : s.recordPackage file.path unit with
    | error e =>
      rw [scanFile, hParse]
      rcases (recordPackage_error_iff s file.path unit e).mp hPackage with
        ⟨hClause, -⟩ | ⟨name, existing, hClause, hScan, hApart, -⟩
      · simp [hPackage, isOfPackage, hClause]
      · simp [hPackage, isOfPackage, hClause, hScan, hApart.symm]
    | ok t =>
      obtain ⟨⟨name, hClause, hScan⟩, -⟩ := (recordPackage_ok_iff s t file.path unit).mp hPackage
      have hOwn : isOfPackage (s.packageName.or unit.packageName) (file.path, unit) := by
        cases hExisting : s.packageName with
        | none => simp [isOfPackage, hClause]
        | some existing => simp [isOfPackage, hClause, hScan existing hExisting]
      rw [scanFile_of_package hParse hClause hScan, recordItems_eq]
      simp only [hOwn, if_true]
      rfl

theorem feed_eq (files : List TaggedFile) (s : PackageScan) :
    s.feed files = ((TaggedFile.parsed files).filter
      (isOfPackage (s.packageName.or (packageOf (TaggedFile.parsed files))))).foldl recordedStart s := by
  induction files generalizing s with
  | nil => rfl
  | cons file rest ih =>
    have hStep : s.feed (file :: rest) = (s.scanFile file).1.feed rest := rfl
    rw [hStep, fst_scanFile, ih]
    cases hParse : file.parsed? with
    | none => simp [TaggedFile.parsed, hParse]
    | some unit =>
      have hParsed : TaggedFile.parsed (file :: rest) = unit :: TaggedFile.parsed rest := by
        simp [TaggedFile.parsed, hParse]
      have hPackage : packageOf (unit :: TaggedFile.parsed rest) =
          unit.2.packageName.or (packageOf (TaggedFile.parsed rest)) := by
        rw [packageOf, List.findSome?_cons]
        cases unit.2.packageName <;> rfl
      rw [hParsed, hPackage, List.filter_cons]
      -- The package is known from the file on, or the file has no clause and does not count.
      cases hClause : unit.2.packageName with
      | none => simp [isOfPackage, hClause]
      | some name =>
        cases hScan : s.packageName with
        | none => simp [isOfPackage, hClause, hScan, packageName_recordedStart]
        | some existing =>
          by_cases hName : name = existing
          · simp [isOfPackage, hClause, hScan, hName, packageName_recordedStart]
          · simp [isOfPackage, hClause, hScan, hName]

section

variable (dir : Path) (files : List TaggedFile)

theorem feed_new : (new dir).feed files = (TaggedFile.scanned files).foldl recordedStart (new dir) := by
  rw [feed_eq]
  rfl

theorem candidates_feed : ((new dir).feed files).candidates =
    (TaggedFile.scanned files).flatMap fun unit =>
      unit.reached.flatMap (Go.Item.candidates unit.2.contextImport unit.1) := by
  rw [feed_new, field_foldl_append candidates_recordedStart]
  rfl

theorem descriptions_feed : ((new dir).feed files).descriptions =
    ((TaggedFile.scanned files).flatMap fun unit =>
      unit.reached.flatMap fun item => item.description?.toList).reverse := by
  rw [feed_new, field_foldl_prepend descriptions_recordedStart]
  exact List.append_nil _

theorem entryPoints_feed : ((new dir).feed files).entryPoints =
    (TaggedFile.scanned files).flatMap fun unit =>
      unit.reached.flatMap fun item => if item.isEntryPoint then [unit.1] else [] := by
  rw [feed_new, field_foldl_append entryPoints_recordedStart]
  rfl

end

end PackageScan

end GoCommands
