import GoCommands.Proofs.Package.CommandNames
import GoCommands.Proofs.Package.Scanning
import GoCommands.Proofs.Wrapper.Scanning
import GoCommands.FileSystem.Memory
import GoCommands.Wrapper.Render

/-! # Generator and discovery

Both read the same files and look for the same functions. They differ in the types whose fields can
claim a function: discovery looks at candidates for commands only, the generator at every struct type.
-/

namespace GoCommands

namespace Walk

theorem taggedFiles_eq {fs : FileSystem} {options : WalkOptions} {dir : Path} {entries : List DirEntry}
    {files : List TaggedFile}
    (hFresh : ∀ e ∈ entries, e.kind = .file → ¬ Text.startsWith (generatedStart options.buildTag) e.name)
    (h : taggedFiles fs options dir entries = .ok files) :
    files = entries.filterMap (DirectoryScan.source? fs dir (some options.buildTag)) := by
  induction entries generalizing files with
  | nil =>
    cases h
    rfl
  | cons e rest ih =>
    obtain ⟨hEntry, hRest⟩ := List.forall_mem_cons.mp hFresh
    have hSource : mayBeTagged options e = DirectoryScan.isSource e := by
      rw [mayBeTagged, DirectoryScan.isSource]
      by_cases hKind : e.kind = .file
      · simp [hEntry hKind]
      · simp [hKind]
    rw [taggedFiles, hSource] at h
    rw [List.filterMap_cons, DirectoryScan.source?]
    cases hIs : DirectoryScan.isSource e with
    | false =>
      rw [hIs] at h
      exact ih hRest h
    | true =>
      rw [hIs] at h
      simp only [if_true, bind, Except.bind] at h ⊢
      split at h
      · cases h
      · rename_i content hRead
        split at h
        · cases h
        · rename_i more hMore
          cases h
          rw [hRead, ← ih hRest hMore]
          cases content <;> rfl

/-- Discovery finds the files that the generator scans for the same tag, as long as none of them has
the name of a generated file. -/
theorem visit_files {fs : FileSystem} {options : WalkOptions} {dir : Path} {entries : List DirEntry}
    {files : List TaggedFile} {dirs : List Path} (hEntries : fs.entries dir = .ok entries)
    (hFresh : ∀ e ∈ entries, e.kind = .file → ¬ Text.startsWith (generatedStart options.buildTag) e.name)
    (h : visit fs options dir = .ok (files, dirs)) :
    files = DirectoryScan.sources fs dir (some options.buildTag) entries := by
  rw [visit, hEntries] at h
  simp only [bind, Except.bind] at h
  split at h
  · cases h
  · rename_i found hFound
    cases h
    exact taggedFiles_eq (fun e he => hFresh e (List.mem_mergeSort.mp he)) hFound

end Walk

namespace PackageScan

def ofFiles (dir : Path) (files : List TaggedFile) : PackageScan :=
  (TaggedFile.parsed files).foldl recorded (new dir)

theorem build_ok {dir : Path} {files : List TaggedFile} {m : PackageModel} (h : build dir files = .ok m) :
    m = (ofFiles dir files).model := by
  rw [build] at h
  simp only [bind, Except.bind] at h
  split at h
  · cases h
  · rename_i s hScan
    rw [ofFiles, ← scanFiles_ok hScan]
    exact ((finish_eq_ok_iff s m).mp h).2.2

section

variable (dir : Path) (files : List TaggedFile)

theorem mem_candidates_ofFiles (c : Candidate) :
    c ∈ (ofFiles dir files).candidates ↔ ∃ unit ∈ TaggedFile.parsed files, ∃ item ∈ unit.2.items,
      c ∈ item.candidates unit.2.contextImport unit.1 := by
  rw [ofFiles, candidates_foldl_recorded]
  simp [new]

theorem mem_links_ofFiles (link : SubcommandLink) :
    link ∈ (ofFiles dir files).links ↔ ∃ unit ∈ TaggedFile.parsed files, ∃ spec ∈ unit.2.typeSpecs,
      spec.isCandidate ∧ link ∈ spec.links := by
  rw [ofFiles, links_foldl_recorded]
  simp only [new, List.nil_append, List.mem_flatMap, Go.Item.candidateTypes, List.mem_filter,
    Go.SourceFile.typeSpecs]
  constructor
  · rintro ⟨unit, hUnit, item, hItem, spec, ⟨hSpec, hCandidate⟩, hLink⟩
    exact ⟨unit, hUnit, spec, ⟨item, hItem, hSpec⟩, hCandidate, hLink⟩
  · rintro ⟨unit, hUnit, spec, ⟨item, hItem, hSpec⟩, hCandidate, hLink⟩
    exact ⟨unit, hUnit, item, hItem, spec, ⟨hSpec, hCandidate⟩, hLink⟩

theorem typeSpec_of_candidate {name : Text} {file : Path} {hasSubcommands : Bool}
    (h : .type name file hasSubcommands ∈ (ofFiles dir files).candidates) :
    ∃ unit ∈ TaggedFile.parsed files, ∃ spec ∈ unit.2.typeSpecs, spec.name = name := by
  obtain ⟨unit, hUnit, item, hItem, hCandidate⟩ := (mem_candidates_ofFiles dir files _).mp h
  rcases List.mem_append.mp hCandidate with hType | hFunction
  · obtain ⟨spec, hSpec, hEq⟩ := List.mem_map.mp hType
    cases hEq
    refine ⟨unit, hUnit, spec, List.mem_flatMap.mpr ⟨item, hItem, List.mem_of_mem_filter hSpec⟩, rfl⟩
  · obtain ⟨c, -, hEq⟩ := List.mem_map.mp hFunction
    cases hEq

theorem function_mem_candidates (c : Go.ContextImport) (path : Path) (item : Go.Item) (name : Text)
    (file : Path) (description : Text) (invocation : Go.Invocation) :
    .function name file description invocation ∈ item.candidates c path ↔ path = file ∧
      ∃ w, item.wrapped? c = some w ∧ w.name = name ∧ w.description.getD [] = description ∧
        w.invocation = invocation := by
  rw [Go.Item.candidates, Go.Item.wrapped?]
  cases item.command? c with
  | none => simp
  | some command =>
    simp [and_left_comm, @eq_comm _ name, @eq_comm _ file, @eq_comm _ description, @eq_comm _ invocation]

/-- The function candidates are what the generator finds. -/
theorem exists_function_candidate (name description : Text) (invocation : Go.Invocation) :
    (∃ file, .function name file description invocation ∈ (ofFiles dir files).candidates) ↔
      ∃ w ∈ (DirectoryScan.ofFiles files).functions,
        w.name = name ∧ w.description.getD [] = description ∧ w.invocation = invocation := by
  simp only [mem_candidates_ofFiles, function_mem_candidates, DirectoryScan.functions_ofFiles,
    List.mem_flatMap, Go.SourceFile.wrapped, List.mem_filterMap]
  constructor
  · rintro ⟨file, unit, hUnit, item, hItem, -, w, hWrapped, hEq⟩
    exact ⟨w, ⟨unit, hUnit, item, hItem, hWrapped⟩, hEq⟩
  · rintro ⟨w, ⟨unit, hUnit, item, hItem, hWrapped⟩, hEq⟩
    exact ⟨unit.1, unit, hUnit, item, hItem, rfl, w, hWrapped, hEq⟩

end

end PackageScan

/-- A struct type that is no candidate for a command, an alias or one that is not exported, has a field
that claims the command name. -/
def HiddenClaim (files : List TaggedFile) (commandName : Text) : Prop :=
  ∃ unit ∈ TaggedFile.parsed files, ∃ spec ∈ unit.2.typeSpecs, ¬ spec.isCandidate ∧
    ∃ link ∈ spec.links, link.name = commandName

theorem claimed_iff (dir : Path) (files : List TaggedFile) (commandName : Text) :
    commandName ∈ (DirectoryScan.ofFiles files).claimedNames ↔
      (PackageScan.ofFiles dir files).isLinkedName commandName ∨ HiddenClaim files commandName := by
  rw [DirectoryScan.mem_claimedNames_ofFiles, PackageScan.isLinkedName, HiddenClaim]
  simp only [List.any_eq_true, beq_iff_eq, PackageScan.mem_links_ofFiles]
  constructor
  · rintro ⟨unit, hUnit, spec, hSpec, link, hLink, hName⟩
    by_cases hCandidate : spec.isCandidate
    · exact .inl ⟨link, ⟨unit, hUnit, spec, hSpec, hCandidate, hLink⟩, hName⟩
    · exact .inr ⟨unit, hUnit, spec, hSpec, hCandidate, link, hLink, hName⟩
  · rintro (⟨link, ⟨unit, hUnit, spec, hSpec, -, hLink⟩, hName⟩ | ⟨unit, hUnit, spec, hSpec, -, link, hLink, hName⟩)
    · exact ⟨unit, hUnit, spec, hSpec, link, hLink, hName⟩
    · exact ⟨unit, hUnit, spec, hSpec, link, hLink, hName⟩

/-- Without wrapper types, discovery promotes every function that no candidate type claims. -/
theorem promotesFunction_iff {dir : Path} {files : List TaggedFile}
    (hUnwrapped : ∀ f ∈ (DirectoryScan.ofFiles files).functions,
      Wrapper.typeName f.name ∉ (DirectoryScan.ofFiles files).typeNames) (name : Text) :
    (PackageScan.ofFiles dir files).PromotesFunction name ↔
      name ∈ (DirectoryScan.ofFiles files).functions.map WrappedFunction.name ∧
        ¬ (PackageScan.ofFiles dir files).isLinkedName (CommandName.ofIdentifier name) := by
  have hDeclared : (∃ file description invocation,
      .function name file description invocation ∈ (PackageScan.ofFiles dir files).candidates) ↔
      name ∈ (DirectoryScan.ofFiles files).functions.map WrappedFunction.name := by
    constructor
    · rintro ⟨file, description, invocation, h⟩
      obtain ⟨w, hw, rfl, -⟩ := (PackageScan.exists_function_candidate dir files _ _ _).mp ⟨file, h⟩
      exact List.mem_map_of_mem hw
    · intro h
      obtain ⟨w, hw, rfl⟩ := List.mem_map.mp h
      obtain ⟨file, h⟩ := (PackageScan.exists_function_candidate dir files _ _ _).mpr ⟨w, hw, rfl, rfl, rfl⟩
      exact ⟨file, _, _, h⟩
  rw [PackageScan.PromotesFunction, hDeclared]
  refine and_congr_right fun hName => and_iff_left ?_
  rintro ⟨file, hasSubcommands, hType, -⟩
  obtain ⟨w, hw, rfl⟩ := List.mem_map.mp hName
  exact hUnwrapped w hw ((DirectoryScan.mem_typeNames_ofFiles files _).mpr
    (PackageScan.typeSpec_of_candidate dir files hType))

/-- The functions that the generator wraps are the function commands of the model, less those that only
a struct type unknown to discovery claims. A function declared once is called and described alike. -/
theorem eligible_iff_command {fs : FileSystem} {dir : Path} {options : WalkOptions}
    {entries : List DirEntry} {scan : DirectoryScan} {files : List TaggedFile} {dirs : List Path}
    {model : PackageModel}
    (hScan : DirectoryScan.ofDirectory fs dir (some options.buildTag) = .ok scan)
    (hEntries : fs.entries dir = .ok entries)
    (hFresh : ∀ e ∈ entries, e.kind = .file →
      ¬ Text.startsWith (Walk.generatedStart options.buildTag) e.name)
    (hVisit : Walk.visit fs options dir = .ok (files, dirs))
    (hBuild : PackageScan.build dir files = .ok model)
    (hUnwrapped : ∀ f ∈ scan.functions, Wrapper.typeName f.name ∉ scan.typeNames) :
    (∀ name, name ∈ scan.eligible.map WrappedFunction.name ↔
      name ∈ (model.commandsOfKind .function).map CommandInfo.name ∧
        ¬ HiddenClaim files (CommandName.ofIdentifier name)) ∧
    ∀ f ∈ scan.functions, scan.functions.countP (·.name == f.name) = 1 →
      ∀ c ∈ model.commandsOfKind .function, c.name = f.name →
        c.description = f.description.getD [] ∧ c.invocation = f.invocation := by
  obtain ⟨entries', hEntries', -, -, hOfFiles⟩ :=
    (DirectoryScan.ofDirectory_ok_iff fs dir (some options.buildTag) scan).mp hScan
  rw [hEntries] at hEntries'
  cases hEntries'
  rw [← Walk.visit_files hEntries hFresh hVisit] at hOfFiles
  subst hOfFiles
  have hModel := PackageScan.build_ok hBuild
  subst hModel
  constructor
  · intro name
    rw [PackageScan.mem_function_names, promotesFunction_iff hUnwrapped, and_assoc, ← not_or,
      ← claimed_iff]
    simp only [List.mem_map, DirectoryScan.mem_eligible]
    constructor
    · rintro ⟨f, ⟨hf, hFree⟩, rfl⟩
      exact ⟨⟨f, hf, rfl⟩, hFree⟩
    · rintro ⟨⟨f, hf, rfl⟩, hFree⟩
      exact ⟨f, ⟨hf, hFree⟩, rfl⟩
  · intro f hf hOnce c hc hName
    obtain ⟨w, hw, hwName, hwDescription, hwInvocation⟩ :=
      (PackageScan.exists_function_candidate dir files _ _ _).mp
        ⟨_, PackageScan.candidate_of_function_command hc⟩
    have hSame : w = f := by
      rw [List.countP_eq_length_filter, List.length_eq_one_iff] at hOnce
      obtain ⟨only, hOnly⟩ := hOnce
      have hFound : ∀ g ∈ (DirectoryScan.ofFiles files).functions, g.name = f.name → g = only := by
        intro g hg hgName
        have hMem : g ∈ (DirectoryScan.ofFiles files).functions.filter (·.name == f.name) :=
          List.mem_filter.mpr ⟨hg, beq_iff_eq.mpr hgName⟩
        rwa [hOnly, List.mem_singleton] at hMem
      rw [hFound w hw (hwName.trans hName), hFound f hf rfl]
    rw [← hSame]
    exact ⟨hwDescription.symm, hwInvocation.symm⟩

/-- A file in which a type that is not exported claims one of two functions. -/
def claimingFile : TaggedFile where
  path := "ops/a.go".toList
  content :=
    ("//go:build gantry\n\npackage ops\n\ntype root struct \x7b\n\tLint L \x60gantry:\"subcommand\"\x60\n\x7d\n\n" ++
      "func Lint() \x7b\x7d\n\n// Build compiles.\nfunc Build() error \x7b return nil \x7d\n").toList

def claimingFiles : FileSystem :=
  (MemoryFiles.empty.addFile claimingFile.path (Utf8.encode claimingFile.content)).fileSystem

def claimingScan : DirectoryScan where
  sourceFiles := [claimingFile.path]
  packageName := some "ops".toList
  typeNames := ["root".toList]
  claimedNames := ["lint".toList]
  functions := [⟨"Lint".toList, none, ⟨false, false⟩⟩, ⟨"Build".toList, some "Build compiles.".toList, ⟨false, true⟩⟩]

def claimingPackage : PackageScan :=
  { PackageScan.new "ops".toList with
    packageName := some "ops".toList
    candidates := [.function "Lint".toList claimingFile.path [] ⟨false, false⟩,
      .function "Build".toList claimingFile.path "Build compiles.".toList ⟨false, true⟩] }

def gantryWalk : WalkOptions := ⟨"gantry".toList, false, true⟩

theorem read_claimingFiles :
    DirectoryScan.ofDirectory claimingFiles "ops".toList (some gantryWalk.buildTag) = .ok claimingScan ∧
      claimingFiles.entries "ops".toList = .ok [⟨"a.go".toList, .file⟩] ∧
      Walk.visit claimingFiles gantryWalk "ops".toList = .ok ([claimingFile], []) ∧
      (PackageScan.new "ops".toList).scanFiles [claimingFile] = .ok claimingPackage := by
  decide +kernel

theorem build_claimingFile :
    PackageScan.build "ops".toList [claimingFile] = .ok claimingPackage.model := by
  obtain ⟨-, -, -, hScan⟩ := read_claimingFiles
  have hFinish : claimingPackage.finish = .ok claimingPackage.model := by
    refine (PackageScan.finish_eq_ok_iff _ _).mpr ⟨rfl, ?_, rfl⟩
    rw [PackageScan.SameIdentifier]
    decide
  rw [PackageScan.build, hScan]
  exact hFinish

theorem fresh_claimingFiles : ∀ e ∈ [(⟨"a.go".toList, .file⟩ : DirEntry)], e.kind = .file →
    ¬ Text.startsWith (Walk.generatedStart gantryWalk.buildTag) e.name := by
  decide

theorem unwrapped_claimingScan :
    ∀ f ∈ claimingScan.functions, Wrapper.typeName f.name ∉ claimingScan.typeNames := by
  decide

/-- Discovery runs a function that the generator leaves to a type which discovery does not know. -/
theorem hidden_claim_separates : ∃ (scan : DirectoryScan) (entries : List DirEntry) (files : List TaggedFile)
    (dirs : List Path) (model : PackageModel),
    DirectoryScan.ofDirectory claimingFiles "ops".toList (some gantryWalk.buildTag) = .ok scan ∧
    claimingFiles.entries "ops".toList = .ok entries ∧
    (∀ e ∈ entries, e.kind = .file → ¬ Text.startsWith (Walk.generatedStart gantryWalk.buildTag) e.name) ∧
    Walk.visit claimingFiles gantryWalk "ops".toList = .ok (files, dirs) ∧
    PackageScan.build "ops".toList files = .ok model ∧
    (∀ f ∈ scan.functions, Wrapper.typeName f.name ∉ scan.typeNames) ∧
    ¬ ∀ name, name ∈ scan.eligible.map WrappedFunction.name ↔
      name ∈ (model.commandsOfKind .function).map CommandInfo.name := by
  obtain ⟨hScan, hEntries, hVisit, -⟩ := read_claimingFiles
  refine ⟨claimingScan, _, [claimingFile], [], claimingPackage.model, hScan, hEntries, fresh_claimingFiles, hVisit,
    build_claimingFile, unwrapped_claimingScan, fun h => ?_⟩
  have hCommand : claimingPackage.PromotesFunction "Lint".toList := by
    refine ⟨⟨_, _, _, .head _⟩, by decide, ?_⟩
    rw [← PackageScan.mem_names_types]
    decide
  have hEligible := (h "Lint".toList).mpr ((PackageScan.mem_function_names _ _).mpr hCommand)
  obtain ⟨f, hf, hName⟩ := List.mem_map.mp hEligible
  have hFree := ((DirectoryScan.mem_eligible _ _).mp hf).2
  rw [hName] at hFree
  exact hFree (by decide)

theorem eligible_iff_command_claimingFiles :
    (∀ name, name ∈ claimingScan.eligible.map WrappedFunction.name ↔
      name ∈ (claimingPackage.model.commandsOfKind .function).map CommandInfo.name ∧
        ¬ HiddenClaim [claimingFile] (CommandName.ofIdentifier name)) ∧
    ∀ f ∈ claimingScan.functions, claimingScan.functions.countP (·.name == f.name) = 1 →
      ∀ c ∈ claimingPackage.model.commandsOfKind .function, c.name = f.name →
        c.description = f.description.getD [] ∧ c.invocation = f.invocation := by
  obtain ⟨hScan, hEntries, hVisit, -⟩ := read_claimingFiles
  exact eligible_iff_command hScan hEntries fresh_claimingFiles hVisit build_claimingFile unwrapped_claimingScan

end GoCommands
