import GoCommands.Proofs.Fold
import GoCommands.Proofs.Go.Declared
import GoCommands.Wrapper.DirectoryScan

/-! # What a directory scan records

A scan that succeeds is the fold of what its files declare. The conditions for success do not depend
on the order of the files: every one of them can be read, none has an exported function of a wrong
signature, and the package clauses agree.
-/

namespace GoCommands

def Go.Item.wrapped? (context : Go.ContextImport) (item : Go.Item) : Option WrappedFunction :=
  (item.command? context).map fun (f, invocation) => ⟨f.name, item.doc, invocation⟩

def Go.SourceFile.wrapped (f : Go.SourceFile) : List WrappedFunction :=
  f.items.filterMap (Go.Item.wrapped? f.contextImport)

namespace DirectoryScan

theorem mem_insertName (name : Text) (names : List Text) (n : Text) :
    n ∈ insertName name names ↔ n = name ∨ n ∈ names := by
  induction names with
  | nil => simp [insertName]
  | cons m rest ih =>
    rw [insertName]
    split
    · simp
    · split
      · rename_i hEq
        simp [beq_iff_eq.mp hEq]
      · rw [List.mem_cons, ih, List.mem_cons]
        exact or_left_comm

def insertNames (new names : List Text) : List Text := new.foldl (fun names name => insertName name names) names

theorem mem_insertNames (new names : List Text) (n : Text) :
    n ∈ insertNames new names ↔ n ∈ names ∨ n ∈ new := by
  rw [insertNames, foldl_iff (P := (n ∈ ·)) (Q := (n = ·)), exists_eq_right']
  intro names name
  rw [mem_insertName, or_comm]

theorem insertNames_append (new more names : List Text) :
    insertNames (new ++ more) names = insertNames more (insertNames new names) :=
  List.foldl_append

theorem insertNames_links (links : List SubcommandLink) (names : List Text) :
    links.foldl (fun names link => insertName link.name names) names =
      insertNames (links.map SubcommandLink.name) names := by
  rw [insertNames, List.foldl_map]

/-- Types add to the names and to nothing else. -/
theorem foldl_recordType (specs : List Go.TypeSpec) (s : DirectoryScan) :
    specs.foldl recordType s =
      { s with
        typeNames := insertNames (specs.map Go.TypeSpec.name) s.typeNames
        claimedNames :=
          insertNames ((specs.flatMap Go.TypeSpec.links).map SubcommandLink.name) s.claimedNames } := by
  induction specs generalizing s with
  | nil => rfl
  | cons spec specs ih =>
    rw [List.foldl_cons, ih, recordType, insertNames_links, List.flatMap_cons, List.map_append,
      insertNames_append]
    rfl

def record (s : DirectoryScan) (unit : ScannedFile) : DirectoryScan where
  sourceFiles := s.sourceFiles ++ [unit.1]
  packageName := s.packageName.or unit.2.packageName
  typeNames := insertNames (unit.2.typeSpecs.map Go.TypeSpec.name) s.typeNames
  claimedNames :=
    insertNames ((unit.2.typeSpecs.flatMap Go.TypeSpec.links).map SubcommandLink.name) s.claimedNames
  functions := s.functions ++ unit.2.wrapped

theorem recordItem_ok_iff (s s' : DirectoryScan) (context : Go.ContextImport) (path : Path) (item : Go.Item) :
    s.recordItem context path item = .ok s' ↔ item.Callable context ∧
      s' = { item.typeSpecs.foldl recordType s with
        functions := s.functions ++ (item.wrapped? context).toList } := by
  rw [recordItem, Go.Item.Callable, Go.Item.typeSpecs, Go.Item.wrapped?, Go.Item.command?, Go.Item.function?]
  cases item.declaration with
  | types specs => simp [foldl_recordType, @eq_comm _ s']
  | function f =>
    by_cases hExported : CommandName.isExported f.name
    · cases hInvocation : f.signature.invocation context with
      | ok invocation => simp [hExported, hInvocation, @eq_comm _ s', Except.toOption]
      | error problem => simp [hExported, hInvocation]
    · simp [hExported, @eq_comm _ s']
  | package _ | imports _ | method _ | other => simp [@eq_comm _ s']

theorem recordPackage_ok_iff (s s' : DirectoryScan) (dir : Path) (unit : Go.SourceFile) :
    s.recordPackage dir unit = .ok s' ↔
      (∀ a ∈ s.packageName, ∀ b ∈ unit.packageName, a = b) ∧
        s' = { s with packageName := s.packageName.or unit.packageName } := by
  rw [recordPackage]
  cases hUnit : unit.packageName with
  | none => simp [@eq_comm _ s']
  | some name =>
    cases hScan : s.packageName with
    | none => simp [@eq_comm _ s']
    | some existing =>
      by_cases hEq : existing = name
      · subst hEq
        simp only [beq_self_eq_true, if_true, ← hScan, Option.or_self, Except.ok.injEq, @eq_comm _ s']
        refine ⟨fun h => ⟨?_, h⟩, fun h => h.2⟩
        simp [hScan]
      · simp [hEq]

theorem recordItems_ok_iff (context : Go.ContextImport) (path : Path) (items : List Go.Item)
    (s s' : DirectoryScan) :
    items.foldlM (fun s item => s.recordItem context path item) s = .ok s' ↔
      (∀ item ∈ items, item.Callable context) ∧
      s' = { (items.flatMap Go.Item.typeSpecs).foldl recordType s with
        functions := s.functions ++ items.filterMap (Go.Item.wrapped? context) } := by
  induction items generalizing s with
  | nil => simp [pure, Except.pure, @eq_comm _ s']
  | cons item items ih =>
    rw [List.foldlM_cons]
    cases hItem : s.recordItem context path item with
    | error e =>
      have hBad : ¬ item.Callable context := by
        intro hCallable
        rw [(recordItem_ok_iff s _ context path item).mpr ⟨hCallable, rfl⟩] at hItem
        cases hItem
      refine iff_of_false (by simp [bind, Except.bind]) fun h => hBad (h.1 item List.mem_cons_self)
    | ok t =>
      obtain ⟨hCallable, rfl⟩ := (recordItem_ok_iff s t context path item).mp hItem
      change (items.foldlM _ _ : Except DiscoverError DirectoryScan) = _ ↔ _
      rw [ih, List.forall_mem_cons, and_iff_right hCallable, List.flatMap_cons, List.foldl_append,
        List.filterMap_cons]
      cases item.wrapped? context <;> simp [foldl_recordType]

theorem scanFile_ok_iff (s s' : DirectoryScan) (dir path : Path) (content : Text) :
    s.scanFile dir path content = .ok s' ↔ ∃ unit, Go.SourceFile.parse content = some unit ∧
      (∀ a ∈ s.packageName, ∀ b ∈ unit.packageName, a = b) ∧ unit.Callable ∧ s' = s.record (path, unit) := by
  rw [scanFile]
  cases hParse : Go.SourceFile.parse content with
  | none => simp
  | some unit =>
    simp only [Option.some.injEq, exists_eq_left']
    cases hPackage : s.recordPackage dir unit with
    | error e =>
      refine iff_of_false (by simp [bind, Except.bind]) fun h => ?_
      rw [(recordPackage_ok_iff s _ dir unit).mpr ⟨h.1, rfl⟩] at hPackage
      cases hPackage
    | ok t =>
      obtain ⟨hAgree, rfl⟩ := (recordPackage_ok_iff s t dir unit).mp hPackage
      rw [and_iff_right hAgree]
      simp only [bind, Except.bind]
      split
      · rename_i e hItems
        refine iff_of_false (by simp) fun h => ?_
        rw [(recordItems_ok_iff unit.contextImport path unit.items _ _).mpr ⟨h.1, rfl⟩] at hItems
        cases hItems
      · rename_i t hItems
        obtain ⟨hCallable, rfl⟩ := (recordItems_ok_iff unit.contextImport path unit.items _ _).mp hItems
        have hUnit : unit.Callable := hCallable
        rw [and_iff_right hUnit, foldl_recordType, Except.ok.injEq, eq_comm]
        rfl

def scanFiles (s : DirectoryScan) (dir : Path) : List TaggedFile → Except DiscoverError DirectoryScan
  | [] => .ok s
  | file :: rest =>
    match s.scanFile dir file.path file.content with
    | .ok s => s.scanFiles dir rest
    | .error e => .error e

/-- Nothing in the files keeps a scan from recording them, whatever their order. -/
structure Scannable (files : List TaggedFile) : Prop where
  parses : ∀ file ∈ files, (Go.SourceFile.parse file.content).isSome
  callable : ∀ unit ∈ TaggedFile.parsed files, unit.2.Callable
  samePackage : SamePackage (TaggedFile.parsed files)

theorem Scannable.of_subset {files more : List TaggedFile} (h : Scannable more)
    (hSub : ∀ file ∈ files, file ∈ more) : Scannable files := by
  have hUnits := TaggedFile.parsed_subset hSub
  exact ⟨fun file hf => h.parses file (hSub file hf), fun unit hu => h.callable unit (hUnits unit hu),
    fun u hu v hv => h.samePackage u (hUnits u hu) v (hUnits v hv)⟩

theorem samePackage_cons (unit : ScannedFile) (units : List ScannedFile) :
    SamePackage (unit :: units) ↔
      (∀ a ∈ unit.2.packageName, ∀ v ∈ units, ∀ b ∈ v.2.packageName, a = b) ∧ SamePackage units := by
  constructor
  · intro h
    refine ⟨fun a ha v hv b hb => ?_, fun u hu v hv => h u (.tail _ hu) v (.tail _ hv)⟩
    exact h unit List.mem_cons_self v (.tail _ hv) a ha b hb
  · rintro ⟨hUnit, hUnits⟩ u hu v hv a ha b hb
    rcases List.mem_cons.mp hu with rfl | huRest <;> rcases List.mem_cons.mp hv with rfl | hvRest
    · exact Option.mem_unique ha hb
    · exact hUnit a ha v hvRest b hb
    · exact (hUnit b hb u huRest a ha).symm
    · exact hUnits u huRest v hvRest a ha b hb

theorem scannable_cons {file : TaggedFile} {unit : Go.SourceFile}
    (h : Go.SourceFile.parse file.content = some unit) (rest : List TaggedFile) :
    Scannable (file :: rest) ↔ unit.Callable ∧
      (∀ a ∈ unit.packageName, ∀ v ∈ TaggedFile.parsed rest, ∀ b ∈ v.2.packageName, a = b) ∧
      Scannable rest := by
  constructor
  · rintro ⟨hParses, hCallable, hSame⟩
    rw [TaggedFile.parsed_cons h] at hCallable hSame
    obtain ⟨hUnit, hRest⟩ := List.forall_mem_cons.mp hCallable
    obtain ⟨hAgree, hSame⟩ := (samePackage_cons _ _).mp hSame
    exact ⟨hUnit, hAgree, fun file hf => hParses file (.tail _ hf), hRest, hSame⟩
  · rintro ⟨hUnit, hAgree, hParses, hCallable, hSame⟩
    refine ⟨List.forall_mem_cons.mpr ⟨by simp [h], hParses⟩, ?_, ?_⟩ <;> rw [TaggedFile.parsed_cons h]
    · exact List.forall_mem_cons.mpr ⟨hUnit, hCallable⟩
    · exact (samePackage_cons _ _).mpr ⟨hAgree, hSame⟩

theorem scanFiles_ok_iff (files : List TaggedFile) (dir : Path) (s s' : DirectoryScan) :
    s.scanFiles dir files = .ok s' ↔ Scannable files ∧
      (∀ a ∈ s.packageName, ∀ unit ∈ TaggedFile.parsed files, ∀ b ∈ unit.2.packageName, a = b) ∧
      s' = (TaggedFile.parsed files).foldl record s := by
  induction files generalizing s with
  | nil =>
    have hNil : Scannable [] := ⟨by simp, by simp [TaggedFile.parsed], by simp [SamePackage, TaggedFile.parsed]⟩
    simp [scanFiles, TaggedFile.parsed, hNil, eq_comm]
  | cons file rest ih =>
    rw [scanFiles]
    cases hFile : s.scanFile dir file.path file.content with
    | error e =>
      refine iff_of_false (by simp) ?_
      rintro ⟨hScannable, hAgree, -⟩
      obtain ⟨unit, hUnit⟩ := Option.isSome_iff_exists.mp (hScannable.parses file List.mem_cons_self)
      rw [TaggedFile.parsed_cons hUnit] at hAgree
      have hFits : ∀ a ∈ s.packageName, ∀ b ∈ unit.packageName, a = b :=
        fun a ha b hb => hAgree a ha _ List.mem_cons_self b hb
      have hCallable := ((scannable_cons hUnit rest).mp hScannable).1
      rw [(scanFile_ok_iff s _ dir _ _).mpr ⟨unit, hUnit, hFits, hCallable, rfl⟩] at hFile
      cases hFile
    | ok t =>
      obtain ⟨unit, hUnit, hFits, hCallable, rfl⟩ := (scanFile_ok_iff s t dir _ _).mp hFile
      rw [ih, scannable_cons hUnit, and_iff_right hCallable, TaggedFile.parsed_cons hUnit, List.foldl_cons]
      constructor
      · rintro ⟨hRest, hAgree, rfl⟩
        refine ⟨⟨fun a ha v hv b hb => ?_, hRest⟩, fun a ha => List.forall_mem_cons.mpr ⟨hFits a ha, ?_⟩, rfl⟩
        · cases hName : s.packageName with
          | none => exact hAgree a (by simp [record, hName, Option.mem_def.mp ha]) v hv b hb
          | some name =>
            rw [← hFits name hName a ha]
            exact hAgree name (by simp [record, hName]) v hv b hb
        · exact hAgree a (by simp [record, Option.mem_def.mp ha])
      · rintro ⟨⟨hUnitAgrees, hRest⟩, hAgree, rfl⟩
        refine ⟨hRest, fun a ha v hv b hb => ?_, rfl⟩
        rcases Option.or_eq_some_iff.mp (Option.mem_def.mp ha) with hName | ⟨-, hName⟩
        · exact hAgree a hName v (.tail _ hv) b hb
        · exact hUnitAgrees a hName v hv b hb

def isSource (e : DirEntry) : Bool := e.kind == .file && Walk.isSourceFile e.name

/-- The entry does not keep a scan from succeeding. -/
def Readable (fs : FileSystem) (dir : Path) (tag : Option Text) (e : DirEntry) : Prop :=
  isSource e → ∃ content, Walk.readTagged fs (Path.join dir e.name) tag = .ok content

/-- The file of an entry, if it is read and selected. -/
def source? (fs : FileSystem) (dir : Path) (tag : Option Text) (e : DirEntry) : Option TaggedFile :=
  if isSource e then
    match Walk.readTagged fs (Path.join dir e.name) tag with
    | .ok content => content.map fun text => ⟨Path.join dir e.name, text⟩
    | .error _ => none
  else none

theorem source?_eq_some_iff (fs : FileSystem) (dir : Path) (tag : Option Text) (e : DirEntry) (file : TaggedFile) :
    source? fs dir tag e = some file ↔ isSource e ∧ ∃ text,
      Walk.readTagged fs (Path.join dir e.name) tag = .ok (some text) ∧ file = ⟨Path.join dir e.name, text⟩ := by
  rw [source?]
  split
  · rename_i hSource
    rw [and_iff_right hSource]
    cases Walk.readTagged fs (Path.join dir e.name) tag with
    | error cause => simp
    | ok content => cases content <;> simp [@eq_comm _ file]
  · rename_i hOther
    simp [hOther]

theorem scanEntries_ok_iff (fs : FileSystem) (dir : Path) (tag : Option Text) (entries : List DirEntry)
    (s s' : DirectoryScan) :
    scanEntries fs dir tag s entries = .ok s' ↔
      (∀ e ∈ entries, Readable fs dir tag e) ∧
      s.scanFiles dir (entries.filterMap (source? fs dir tag)) = .ok s' := by
  induction entries generalizing s with
  | nil => simp [scanEntries, scanFiles]
  | cons e rest ih =>
    rw [scanEntries, List.forall_mem_cons, List.filterMap_cons, Readable, source?, ← isSource]
    cases hSource : isSource e with
    | false => simpa using ih s
    | true =>
      simp only [if_true, true_imp_iff]
      cases hRead : Walk.readTagged fs (Path.join dir e.name) tag with
      | error cause => simp [bind, Except.bind]
      | ok content =>
        cases content with
        | none => simpa [bind, Except.bind] using ih s
        | some text =>
          simp only [Except.ok.injEq, exists_eq', true_and, Option.map_some, scanFiles]
          simp only [bind, Except.bind]
          cases s.scanFile dir (Path.join dir e.name) text with
          | error cause => simp
          | ok t => exact ih t

/-- The selected files of a directory, in the order of their names. -/
def sources (fs : FileSystem) (dir : Path) (tag : Option Text) (entries : List DirEntry) : List TaggedFile :=
  (sortEntries entries).filterMap (source? fs dir tag)

def ofFiles (files : List TaggedFile) : DirectoryScan := (TaggedFile.parsed files).foldl record empty

theorem functions_foldl_record (units : List ScannedFile) (s : DirectoryScan) :
    (units.foldl record s).functions = s.functions ++ units.flatMap fun unit => unit.2.wrapped :=
  field_foldl_append (fun _ _ => rfl) units s

theorem sourceFiles_foldl_record (units : List ScannedFile) (s : DirectoryScan) :
    (units.foldl record s).sourceFiles = s.sourceFiles ++ units.map Prod.fst := by
  rw [List.map_eq_flatMap]
  exact field_foldl_append (fun _ _ => rfl) units s

theorem packageName_foldl_record (units : List ScannedFile) (s : DirectoryScan) :
    (units.foldl record s).packageName =
      s.packageName.or (units.findSome? fun unit => unit.2.packageName) :=
  field_foldl_or (fun _ _ => rfl) units s

theorem mem_typeNames_foldl_record (units : List ScannedFile) (s : DirectoryScan) (n : Text) :
    n ∈ (units.foldl record s).typeNames ↔
      n ∈ s.typeNames ∨ ∃ unit ∈ units, n ∈ unit.2.typeSpecs.map Go.TypeSpec.name :=
  foldl_iff (P := fun s => n ∈ s.typeNames) (fun _ _ => mem_insertNames _ _ n) units s

theorem mem_claimedNames_foldl_record (units : List ScannedFile) (s : DirectoryScan) (n : Text) :
    n ∈ (units.foldl record s).claimedNames ↔ n ∈ s.claimedNames ∨
      ∃ unit ∈ units, n ∈ (unit.2.typeSpecs.flatMap Go.TypeSpec.links).map SubcommandLink.name :=
  foldl_iff (P := fun s => n ∈ s.claimedNames) (fun _ _ => mem_insertNames _ _ n) units s

section

variable (files : List TaggedFile)

theorem functions_ofFiles :
    (ofFiles files).functions = (TaggedFile.parsed files).flatMap fun unit => unit.2.wrapped := by
  rw [ofFiles, functions_foldl_record]
  rfl

theorem sourceFiles_ofFiles : (ofFiles files).sourceFiles = (TaggedFile.parsed files).map Prod.fst := by
  rw [ofFiles, sourceFiles_foldl_record]
  rfl

theorem packageName_ofFiles :
    (ofFiles files).packageName = (TaggedFile.parsed files).findSome? fun unit => unit.2.packageName := by
  rw [ofFiles, packageName_foldl_record]
  rfl

theorem mem_typeNames_ofFiles (n : Text) : n ∈ (ofFiles files).typeNames ↔
    ∃ unit ∈ TaggedFile.parsed files, ∃ spec ∈ unit.2.typeSpecs, spec.name = n := by
  rw [ofFiles, mem_typeNames_foldl_record]
  simp [empty]

theorem mem_claimedNames_ofFiles (n : Text) : n ∈ (ofFiles files).claimedNames ↔
    ∃ unit ∈ TaggedFile.parsed files, ∃ spec ∈ unit.2.typeSpecs, ∃ link ∈ spec.links, link.name = n := by
  rw [ofFiles, mem_claimedNames_foldl_record]
  simp [empty, List.map_flatMap]

end

/-- A listing that comes by name is scanned as it is. -/
theorem ofDirectory_of_pairwise {fs : FileSystem} {dir : Path} {entries : List DirEntry}
    (hEntries : fs.entries dir = .ok entries) (hOrder : entries.Pairwise fun a b => Text.le a.name b.name)
    (tag : Option Text) : ofDirectory fs dir tag = scanEntries fs dir tag empty entries := by
  have hSorted : sortEntries entries = entries := List.mergeSort_of_pairwise hOrder
  rw [ofDirectory, hEntries]
  show scanEntries fs dir tag empty (sortEntries entries) = _
  rw [hSorted]

theorem ofDirectory_ok_iff (fs : FileSystem) (dir : Path) (tag : Option Text) (s : DirectoryScan) :
    ofDirectory fs dir tag = .ok s ↔ ∃ entries, fs.entries dir = .ok entries ∧
      (∀ e ∈ entries, Readable fs dir tag e) ∧ Scannable (sources fs dir tag entries) ∧
      s = ofFiles (sources fs dir tag entries) := by
  rw [ofDirectory]
  cases hEntries : fs.entries dir with
  | error cause => simp
  | ok entries =>
    have hMem : ∀ e, e ∈ sortEntries entries ↔ e ∈ entries := fun e => List.mem_mergeSort
    simp only [Except.ok.injEq, exists_eq_left', scanEntries_ok_iff, scanFiles_ok_iff, hMem, sources, ofFiles]
    simp [empty]

theorem mem_eligible (s : DirectoryScan) (f : WrappedFunction) :
    f ∈ s.eligible ↔ f ∈ s.functions ∧ CommandName.ofIdentifier f.name ∉ s.claimedNames := by
  rw [eligible, List.mem_mergeSort, List.mem_filter]
  simp

theorem eligible_of_unclaimed {s : DirectoryScan} (hClaimed : s.claimedNames = [])
    (hSorted : s.functions.Pairwise fun f g => Text.le f.name g.name) : s.eligible = s.functions := by
  have hFilter : (s.functions.filter fun f => !s.claimedNames.contains (CommandName.ofIdentifier f.name)) =
      s.functions := by
    refine List.filter_eq_self.mpr fun f _ => ?_
    rw [hClaimed]
    rfl
  rw [eligible, hFilter]
  exact List.mergeSort_of_pairwise hSorted

end DirectoryScan

end GoCommands
