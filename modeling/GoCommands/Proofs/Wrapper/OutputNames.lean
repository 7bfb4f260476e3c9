import GoCommands.Proofs.Path.Normal
import GoCommands.Proofs.Wrapper.Replacement

/-! # Outputs of one name

The name of an output is tag, `_` and package between a fixed start and a fixed end. A `_` may stand in the
tag and in the package too, so two pairs can have one name, and the later run then writes over the wrappers
of the other.
-/

namespace GoCommands

namespace Generate

/-- The second tag goes on with what the first package starts with, up to a `_` of each. -/
def Overlaps (tag package tag' package' : Text) : Prop :=
  ∃ middle, tag' = tag ++ '_' :: middle ∧ package = middle ++ '_' :: package'

theorem Overlaps.mem {tag package tag' package' : Text} (h : Overlaps tag package tag' package') :
    '_' ∈ tag' ∧ '_' ∈ package := by
  obtain ⟨middle, rfl, rfl⟩ := h
  exact ⟨List.mem_append_right _ (.head _), List.mem_append_right _ (.head _)⟩

/-- The separator between tag and package may be taken for another `_` of the name. -/
theorem joined_eq_iff {tag package tag' package' : Text} :
    tag ++ '_' :: package = tag' ++ '_' :: package' ↔ (tag = tag' ∧ package = package') ∨
      Overlaps tag package tag' package' ∨ Overlaps tag' package' tag package := by
  constructor
  · intro hSame
    rcases List.append_eq_append_iff.mp hSame with ⟨more, hTag, hRest⟩ | ⟨more, hTag, hRest⟩
    · cases more with
      | nil => exact .inl ⟨(hTag.trans (List.append_nil _)).symm, (List.cons.inj hRest).2⟩
      | cons c middle =>
        obtain ⟨rfl, hPackage⟩ := List.cons.inj hRest
        exact .inr (.inl ⟨middle, hTag, hPackage⟩)
    · cases more with
      | nil => exact .inl ⟨hTag.trans (List.append_nil _), (List.cons.inj hRest).2.symm⟩
      | cons c middle =>
        obtain ⟨rfl, hPackage⟩ := List.cons.inj hRest
        exact .inr (.inr ⟨middle, hTag, hPackage⟩)
  · rintro (⟨rfl, rfl⟩ | ⟨middle, rfl, rfl⟩ | ⟨middle, rfl, rfl⟩)
    · rfl
    · rw [List.append_assoc, List.cons_append]
    · rw [List.append_assoc, List.cons_append]

theorem joined_eq_iff_of_ne {tag package tag' package' : Text} (hOther : (tag, package) ≠ (tag', package')) :
    tag ++ '_' :: package = tag' ++ '_' :: package' ↔
      Overlaps tag package tag' package' ∨ Overlaps tag' package' tag package :=
  joined_eq_iff.trans (or_iff_right fun h => hOther (Prod.ext h.1 h.2))

theorem not_overlaps_of_not_mem {tag package tag' package' : Text} (h : '_' ∉ tag) (h' : '_' ∉ tag') :
    ¬ (Overlaps tag package tag' package' ∨ Overlaps tag' package' tag package) := by
  rintro (hOverlaps | hOverlaps)
  · exact h' hOverlaps.mem.1
  · exact h hOverlaps.mem.1

theorem atomTag_of_isAtom {options : GenerateOptions} {tag : Text} (hTag : options.buildTag = some tag)
    (hAtom : Constraint.IsAtom tag) : AtomTag options := by
  intro t ht
  obtain rfl : tag = t := Option.some.inj (hTag.symm.trans ht)
  exact hAtom

theorem effectiveTag_of_buildTag {options : GenerateOptions} {tag : Text} (hTag : options.buildTag = some tag) :
    effectiveTag options = tag := by
  rw [effectiveTag, hTag, Option.getD_some]

theorem ne_of_buildTag {options options' : GenerateOptions} {tag tag' package package' : Text}
    (hTag : options.buildTag = some tag) (hTag' : options'.buildTag = some tag')
    (hOther : (tag, package) ≠ (tag', package')) : (options.buildTag, package) ≠ (options'.buildTag, package') := by
  rw [hTag, hTag']
  intro hSame
  exact hOther (Prod.ext (Option.some.inj (Prod.mk.inj hSame).1) (Prod.mk.inj hSame).2)

theorem outputName_inj {options options' : GenerateOptions} {package package' : Text} :
    outputName options package = outputName options' package' ↔
      effectiveTag options ++ '_' :: package = effectiveTag options' ++ '_' :: package' := by
  rw [outputName_cut, outputName_cut, List.append_cancel_right_eq, List.append_assoc, List.append_assoc,
    List.append_cancel_left_eq]

/-- A unit shows its tag and its package. -/
theorem outputText_inj {fs fs' : FileSystem} {options options' : GenerateOptions} {package package' : Text}
    (hTag : AtomTag options) (hTag' : AtomTag options') (hPackage : Go.IsWord package)
    (hPackage' : Go.IsWord package') (hSame : outputText fs options package = outputText fs' options' package') :
    options.buildTag = options'.buildTag ∧ package = package' := by
  constructor
  · refine Option.ext fun u => ?_
    rw [← selects_outputText_iff hTag hPackage fs, hSame, selects_outputText_iff hTag' hPackage' fs']
  · obtain ⟨unit, hParse, hName, -⟩ := parse_outputText hTag hPackage fs
    obtain ⟨unit', hParse', hName', -⟩ := parse_outputText hTag' hPackage' fs'
    rw [hSame, hParse'] at hParse
    rw [← Option.some.inj hParse, hName'] at hName
    exact (Option.some.inj hName).symm

namespace Wrote

variable {s₁ s₁' s₂ s₂' : MemoryFiles} {options₁ options₂ : GenerateOptions} {package₁ package₂ : Text}
  (h₁ : Wrote s₁ s₁' options₁ package₁) (h₂ : Wrote s₂ s₂' options₂ package₂)
  (hTag₁ : AtomTag options₁) (hTag₂ : AtomTag options₂)
include h₁ h₂ hTag₁ hTag₂

theorem place_eq_iff (hDir : options₁.dir.normalize = options₂.dir.normalize) :
    (outputPath options₁ package₁).normalize = (outputPath options₂ package₂).normalize ↔
      effectiveTag options₁ ++ '_' :: package₁ = effectiveTag options₂ ++ '_' :: package₂ :=
  (Path.normalize_join_inj hDir (h₁.isName hTag₁) (h₂.isName hTag₂)).trans outputName_inj

theorem path_eq_iff (hDir : options₁.dir = options₂.dir) :
    outputPath options₁ package₁ = outputPath options₂ package₂ ↔
      effectiveTag options₁ ++ '_' :: package₁ = effectiveTag options₂ ++ '_' :: package₂ := by
  have hPath : outputPath options₁ package₁ = Path.join options₂.dir (outputName options₁ package₁) :=
    congrArg (Path.join · _) hDir
  rw [hPath]
  exact (Path.join_inj options₂.dir (h₁.isName hTag₁) (h₂.isName hTag₂)).trans outputName_inj

/-- What a run wrote stays through another one, for another tag or package, exactly if that has its output
elsewhere. -/
theorem kept_iff (hOther : (options₁.buildTag, package₁) ≠ (options₂.buildTag, package₂))
    (hStored : s₂.bytes (outputPath options₁ package₁) = s₁'.bytes (outputPath options₁ package₁)) :
    s₂'.bytes (outputPath options₁ package₁) = s₁'.bytes (outputPath options₁ package₁) ↔
      (outputPath options₁ package₁).normalize ≠ (outputPath options₂ package₂).normalize := by
  rw [h₂.stores.bytes_eq]
  split
  · rename_i hPlace
    refine iff_of_false (fun hBytes => hOther ?_) fun hElsewhere => hElsewhere hPlace.symm
    rw [h₁.stores.bytes_eq, if_pos rfl] at hBytes
    have hDecode := congrArg Utf8.decode (Except.ok.inj hBytes)
    rw [Utf8.decode_encode, Utf8.decode_encode] at hDecode
    obtain ⟨hTags, hPackages⟩ := outputText_inj hTag₂ hTag₁ h₂.isWord_package h₁.isWord_package
      (Except.ok.inj hDecode)
    rw [hTags, hPackages]
  · rename_i hPlace
    exact iff_of_true hStored fun hSame => hPlace hSame.symm

end Wrote

end Generate

/-- Two runs in one directory, each for an atom as tag, that write for different tags or packages. They
write to one place exactly if the tags and packages overlap, and what the first wrote and the second found
stays exactly if they do not. -/
theorem outputs_clash_iff {s₁ s₁' s₂ s₂' : MemoryFiles} {options₁ options₂ : GenerateOptions}
    {tag₁ tag₂ : Text} {path₁ path₂ : Path} (hDir : options₁.dir.normalize = options₂.dir.normalize)
    (hTag₁ : options₁.buildTag = some tag₁) (hAtom₁ : Constraint.IsAtom tag₁)
    (hTag₂ : options₂.buildTag = some tag₂) (hAtom₂ : Constraint.IsAtom tag₂)
    (hRun₁ : generate s₁ options₁ = (s₁', .ok (some path₁)))
    (hRun₂ : generate s₂ options₂ = (s₂', .ok (some path₂))) :
    ∃ package₁ package₂,
      (DirectoryScan.ofFiles (Generate.scannedFiles (FileStore.view s₁) options₁)).packageName = some package₁ ∧
      (DirectoryScan.ofFiles (Generate.scannedFiles (FileStore.view s₂) options₂)).packageName = some package₂ ∧
      ((tag₁, package₁) ≠ (tag₂, package₂) →
        let clash := Generate.Overlaps tag₁ package₁ tag₂ package₂ ∨
          Generate.Overlaps tag₂ package₂ tag₁ package₁
        (path₁.normalize = path₂.normalize ↔ clash) ∧
        (options₁.dir = options₂.dir → (path₁ = path₂ ↔ clash)) ∧
        (s₂.bytes path₁ = s₁'.bytes path₁ → (s₂'.bytes path₁ = s₁'.bytes path₁ ↔ ¬ clash))) := by
  obtain ⟨package₁, rfl, h₁⟩ := Generate.exists_wrote hRun₁
  obtain ⟨package₂, rfl, h₂⟩ := Generate.exists_wrote hRun₂
  have hAtoms₁ := Generate.atomTag_of_isAtom hTag₁ hAtom₁
  have hAtoms₂ := Generate.atomTag_of_isAtom hTag₂ hAtom₂
  refine ⟨package₁, package₂, h₁.packageName, h₂.packageName, fun hOther => ?_⟩
  have hJoined : Generate.effectiveTag options₁ ++ '_' :: package₁ =
        Generate.effectiveTag options₂ ++ '_' :: package₂ ↔
      Generate.Overlaps tag₁ package₁ tag₂ package₂ ∨ Generate.Overlaps tag₂ package₂ tag₁ package₁ := by
    rw [Generate.effectiveTag_of_buildTag hTag₁, Generate.effectiveTag_of_buildTag hTag₂]
    exact Generate.joined_eq_iff_of_ne hOther
  have hPlace := (h₁.place_eq_iff h₂ hAtoms₁ hAtoms₂ hDir).trans hJoined
  refine ⟨hPlace, fun hSame => (h₁.path_eq_iff h₂ hAtoms₁ hAtoms₂ hSame).trans hJoined, fun hStored => ?_⟩
  rw [← hPlace]
  exact h₁.kept_iff h₂ hAtoms₁ hAtoms₂ (Generate.ne_of_buildTag hTag₁ hTag₂ hOther) hStored

/-- Two packages, each under a tag of its own. -/
def regionalFiles : MemoryFiles :=
  (MemoryFiles.empty.addFile "ops/check.go".toList
      (Utf8.encode "//go:build deploy_eu\n\npackage tools\n\nfunc Check() {}\n".toList)).addFile
    "ops/eu.go".toList (Utf8.encode "//go:build deploy\n\npackage eu_tools\n\nfunc Ship() {}\n".toList)

def regionalOptions (tag : Text) : GenerateOptions := ⟨"ops".toList, some tag, true⟩

def regionalPath : Path := "ops/generated_deploy_eu_tools.go".toList

def regionalScan (source : Path) (package function : Text) : DirectoryScan where
  sourceFiles := [source]
  packageName := some package
  typeNames := []
  claimedNames := []
  functions := [⟨function, none, ⟨false, false⟩⟩]

def withWrapper (s : MemoryFiles) (tag package function : Text) : MemoryFiles :=
  (s.writeFile regionalPath (Utf8.encode (Layout.normalize
    (Wrapper.unit package (some tag) [⟨function, none, ⟨false, false⟩⟩]))) Generate.fileMode).1

/-- The files have one function for a tag, and the run for it may write its wrapper. -/
structure Wraps (s : MemoryFiles) (entries : List DirEntry) (source : Path) (tag package function : Text) :
    Prop where
  entries_eq : s.fileSystem.entries "ops".toList = .ok entries
  ordered : entries.Pairwise fun a b => Text.le a.name b.name
  scan_eq : DirectoryScan.scanEntries s.fileSystem "ops".toList (some tag) .empty entries =
    .ok (regionalScan source package function)
  parses : (Go.SourceFile.parse (Wrapper.unit package (some tag) [⟨function, none, ⟨false, false⟩⟩])).isSome
  outputPath_eq : Generate.outputPath (regionalOptions tag) package = regionalPath
  writable : (Path.normalize regionalPath).directory.any s.isDir

theorem Wraps.generate {s : MemoryFiles} {entries : List DirEntry} {source : Path} {tag package function : Text}
    (h : Wraps s entries source tag package function) :
    generate s (regionalOptions tag) = (withWrapper s tag package function, .ok (some regionalPath)) := by
  have hScan : DirectoryScan.ofDirectory (FileStore.view s) (regionalOptions tag).dir
      (Generate.scanTag (regionalOptions tag)) = .ok (regionalScan source package function) :=
    (DirectoryScan.ofDirectory_of_pairwise h.entries_eq h.ordered _).trans h.scan_eq
  have hAdmissible : Generate.Admissible (regionalOptions tag) := rfl
  have hRun := Generate.generate_of_unclaimed hAdmissible hScan (List.cons_ne_nil _ _) rfl rfl rfl
    (List.cons_ne_nil _ _) (List.pairwise_singleton _ _) h.parses h.outputPath_eq
    (MemoryFiles.writeFile_of_isDir h.writable _ _)
  exact hRun

def checkEntry : DirEntry := ⟨"check.go".toList, .file⟩

def shipEntry : DirEntry := ⟨"eu.go".toList, .file⟩

def wrapperEntry : DirEntry := ⟨"generated_deploy_eu_tools.go".toList, .file⟩

def shippedFiles : MemoryFiles := withWrapper regionalFiles "deploy".toList "eu_tools".toList "Ship".toList

def checkedFiles : MemoryFiles := withWrapper shippedFiles "deploy_eu".toList "tools".toList "Check".toList

theorem wraps_regionalFiles : Wraps regionalFiles [checkEntry, shipEntry] "ops/eu.go".toList "deploy".toList
    "eu_tools".toList "Ship".toList := by
  constructor <;> decide +kernel

theorem wraps_shippedFiles : Wraps shippedFiles [checkEntry, shipEntry, wrapperEntry] "ops/check.go".toList
    "deploy_eu".toList "tools".toList "Check".toList := by
  constructor <;> decide +kernel

theorem isAtom_regionalTags : Constraint.IsAtom "deploy".toList ∧ Constraint.IsAtom "deploy_eu".toList :=
  ⟨⟨by decide, List.all_eq_true.mp (by decide)⟩, ⟨by decide, List.all_eq_true.mp (by decide)⟩⟩

/-- The second run writes over the wrapper that the first run wrote for another tag and another package. -/
theorem regionalFiles_overwritten :
    Constraint.IsAtom "deploy".toList ∧ Constraint.IsAtom "deploy_eu".toList ∧
      generate regionalFiles (regionalOptions "deploy".toList) = (shippedFiles, .ok (some regionalPath)) ∧
      generate shippedFiles (regionalOptions "deploy_eu".toList) = (checkedFiles, .ok (some regionalPath)) ∧
      checkedFiles.bytes regionalPath ≠ shippedFiles.bytes regionalPath := by
  obtain ⟨hAtom₁, hAtom₂⟩ := isAtom_regionalTags
  refine ⟨hAtom₁, hAtom₂, wraps_regionalFiles.generate, wraps_shippedFiles.generate, fun hKept => ?_⟩
  obtain ⟨package₁, hPath₁, h₁⟩ := Generate.exists_wrote wraps_regionalFiles.generate
  obtain ⟨package₂, hPath₂, h₂⟩ := Generate.exists_wrote wraps_shippedFiles.generate
  rw [hPath₁] at hKept
  have hOther : ((regionalOptions "deploy".toList).buildTag, package₁) ≠
      ((regionalOptions "deploy_eu".toList).buildTag, package₂) := fun hSame =>
    absurd (Prod.mk.inj hSame).1 (by decide)
  refine (h₁.kept_iff h₂ (Generate.atomTag_of_isAtom rfl hAtom₁) (Generate.atomTag_of_isAtom rfl hAtom₂) hOther
    rfl).mp hKept ?_
  rw [← hPath₁, hPath₂]

theorem outputs_clash_iff_regionalFiles : ∃ package₁ package₂,
    (DirectoryScan.ofFiles (Generate.scannedFiles (FileStore.view regionalFiles)
      (regionalOptions "deploy".toList))).packageName = some package₁ ∧
    (DirectoryScan.ofFiles (Generate.scannedFiles (FileStore.view shippedFiles)
      (regionalOptions "deploy_eu".toList))).packageName = some package₂ ∧
    let clash := Generate.Overlaps "deploy".toList package₁ "deploy_eu".toList package₂ ∨
      Generate.Overlaps "deploy_eu".toList package₂ "deploy".toList package₁
    clash ∧ checkedFiles.bytes regionalPath ≠ shippedFiles.bytes regionalPath := by
  obtain ⟨hAtom₁, hAtom₂⟩ := isAtom_regionalTags
  have hDir : (regionalOptions "deploy".toList).dir.normalize = (regionalOptions "deploy_eu".toList).dir.normalize :=
    rfl
  obtain ⟨package₁, package₂, hPackage₁, hPackage₂, hRuns⟩ := outputs_clash_iff hDir rfl hAtom₁ rfl hAtom₂
    wraps_regionalFiles.generate wraps_shippedFiles.generate
  obtain ⟨hPlace, -, hBytes⟩ := hRuns fun hSame => absurd (Prod.mk.inj hSame).1 (by decide)
  have hClash := hPlace.mp rfl
  exact ⟨package₁, package₂, hPackage₁, hPackage₂, hClash, fun hKept => (hBytes rfl).mp hKept hClash⟩

/-- Two runs for tags without a `_` keep out of each other's way: if the tags or the packages differ, they write to
different places, and what the first wrote and the second found stays. -/
theorem outputs_apart_of_not_mem {s₁ s₁' s₂ s₂' : MemoryFiles} {options₁ options₂ : GenerateOptions}
    {tag₁ tag₂ : Text} {path₁ path₂ : Path} (hDir : options₁.dir.normalize = options₂.dir.normalize)
    (hTag₁ : options₁.buildTag = some tag₁) (hAtom₁ : Constraint.IsAtom tag₁) (hPlain₁ : '_' ∉ tag₁)
    (hTag₂ : options₂.buildTag = some tag₂) (hAtom₂ : Constraint.IsAtom tag₂) (hPlain₂ : '_' ∉ tag₂)
    (hRun₁ : generate s₁ options₁ = (s₁', .ok (some path₁)))
    (hRun₂ : generate s₂ options₂ = (s₂', .ok (some path₂))) :
    ∃ package₁ package₂,
      (DirectoryScan.ofFiles (Generate.scannedFiles (FileStore.view s₁) options₁)).packageName = some package₁ ∧
      (DirectoryScan.ofFiles (Generate.scannedFiles (FileStore.view s₂) options₂)).packageName = some package₂ ∧
      ((tag₁, package₁) ≠ (tag₂, package₂) → path₁.normalize ≠ path₂.normalize ∧
        (s₂.bytes path₁ = s₁'.bytes path₁ → s₂'.bytes path₁ = s₁'.bytes path₁)) := by
  obtain ⟨package₁, rfl, h₁⟩ := Generate.exists_wrote hRun₁
  obtain ⟨package₂, rfl, h₂⟩ := Generate.exists_wrote hRun₂
  have hAtoms₁ := Generate.atomTag_of_isAtom hTag₁ hAtom₁
  have hAtoms₂ := Generate.atomTag_of_isAtom hTag₂ hAtom₂
  refine ⟨package₁, package₂, h₁.packageName, h₂.packageName, fun hOther => ?_⟩
  have hApart : (Generate.outputPath options₁ package₁).normalize ≠
      (Generate.outputPath options₂ package₂).normalize := by
    rw [Ne, h₁.place_eq_iff h₂ hAtoms₁ hAtoms₂ hDir, Generate.effectiveTag_of_buildTag hTag₁,
      Generate.effectiveTag_of_buildTag hTag₂, Generate.joined_eq_iff_of_ne hOther]
    exact Generate.not_overlaps_of_not_mem hPlain₁ hPlain₂
  have hDiffers := Generate.ne_of_buildTag hTag₁ hTag₂ hOther
  exact ⟨hApart, fun hStored => (h₁.kept_iff h₂ hAtoms₁ hAtoms₂ hDiffers hStored).mpr hApart⟩

end GoCommands
