import GoCommands.Proofs.Package.CommandNames

/-! # The commands of a package, exactly

What a scan recorded decides which identifiers become commands: the candidates, the links by child type
and by name, and the `Run` methods. Neither the order of the declarations nor their number matters.
-/

namespace GoCommands.PackageScan

/-- What makes an identifier a type command, whichever declarations were scanned in whichever order. -/
structure IsTypeCommand (s : PackageScan) (name : Text) : Prop where
  declared : ∃ file hasSubcommands, .type name file hasSubcommands ∈ s.candidates
  unlinked : ∀ link ∈ s.links, link.childType ≠ name
  runs : (∃ invocation, (name, invocation) ∈ s.runMethods) ∨ ∃ file, .type name file true ∈ s.candidates

/-- What makes an identifier a function command. -/
structure IsFunctionCommand (s : PackageScan) (name : Text) : Prop where
  declared : ∃ file description invocation, .function name file description invocation ∈ s.candidates
  unclaimed : ∀ link ∈ s.links, link.name ≠ CommandName.ofIdentifier name
  unwrapped : ¬ s.IsTypeCommand (name ++ wrapperSuffix)

theorem isLinkedType_eq_false_iff (s : PackageScan) (name : Text) :
    s.isLinkedType name = false ↔ ∀ link ∈ s.links, link.childType ≠ name := by
  simp [isLinkedType]

theorem isLinkedName_eq_false_iff (s : PackageScan) (name : Text) :
    s.isLinkedName name = false ↔ ∀ link ∈ s.links, link.name ≠ name := by
  simp [isLinkedName]

theorem runMethod_isSome_iff (s : PackageScan) (name : Text) :
    (s.runMethod name).isSome ↔ ∃ invocation, (name, invocation) ∈ s.runMethods := by
  rw [runMethod, List.lookup_isSome_iff]
  constructor
  · rintro ⟨⟨receiver, invocation⟩, hMem, hReceiver⟩
    rw [beq_iff_eq] at hReceiver
    exact ⟨invocation, hReceiver ▸ hMem⟩
  · rintro ⟨invocation, hMem⟩
    exact ⟨_, hMem, beq_self_eq_true name⟩

theorem promotesType_iff (s : PackageScan) (name : Text) : s.PromotesType name ↔ s.IsTypeCommand name := by
  constructor
  · rintro ⟨file, hasSubcommands, hDeclared, hKeeps⟩
    rw [keepsType, Bool.and_eq_true, Bool.not_eq_true', isLinkedType_eq_false_iff, Bool.or_eq_true] at hKeeps
    refine ⟨⟨file, hasSubcommands, hDeclared⟩, hKeeps.1, hKeeps.2.imp (runMethod_isSome_iff s name).mp ?_⟩
    rintro rfl
    exact ⟨file, hDeclared⟩
  · rintro ⟨⟨file, hasSubcommands, hDeclared⟩, hUnlinked, hRuns⟩
    have hFree := (isLinkedType_eq_false_iff s name).mpr hUnlinked
    rcases hRuns with hRun | ⟨file', hFields⟩
    · have hRuns := (runMethod_isSome_iff s name).mpr hRun
      exact ⟨file, hasSubcommands, hDeclared, by rw [keepsType, hFree, hRuns]; rfl⟩
    · -- The declaration that has subcommands is the one to be kept; another of the name may have none.
      exact ⟨file', true, hFields, by rw [keepsType, hFree, Bool.or_true]; rfl⟩

theorem promotesFunction_iff_isFunctionCommand (s : PackageScan) (name : Text) :
    s.PromotesFunction name ↔ s.IsFunctionCommand name := by
  rw [PromotesFunction, promotesType_iff, Bool.not_eq_true, isLinkedName_eq_false_iff]
  constructor
  · rintro ⟨hDeclared, hUnclaimed, hUnwrapped⟩
    exact ⟨hDeclared, hUnclaimed, hUnwrapped⟩
  · rintro ⟨hDeclared, hUnclaimed, hUnwrapped⟩
    exact ⟨hDeclared, hUnclaimed, hUnwrapped⟩

theorem mem_type_names (s : PackageScan) (name : Text) :
    name ∈ (s.model.commandsOfKind .type).map CommandInfo.name ↔ s.PromotesType name := by
  rw [← mem_names_types]
  simp only [List.mem_map, PackageModel.commandsOfKind, List.mem_filter, beq_iff_eq, mem_types_iff]

/-- The identifiers of the type commands and of the function commands of a finished scan. -/
theorem mem_commands_finish_iff {s : PackageScan} {m : PackageModel} (h : s.finish = .ok m) (name : Text) :
    ((∃ c ∈ m.commands, c.name = name ∧ c.kind = .type) ↔ s.IsTypeCommand name) ∧
    ((∃ c ∈ m.commands, c.name = name ∧ c.kind = .function) ↔ s.IsFunctionCommand name) := by
  obtain ⟨-, -, rfl⟩ := (finish_eq_ok_iff s m).mp h
  have hNames : ∀ kind, (∃ c ∈ s.model.commands, c.name = name ∧ c.kind = kind) ↔
      name ∈ (s.model.commandsOfKind kind).map CommandInfo.name := by
    intro kind
    simp only [List.mem_map, PackageModel.commandsOfKind, List.mem_filter, beq_iff_eq]
    constructor
    · rintro ⟨c, hc, hName, hKind⟩
      exact ⟨c, ⟨hc, hKind⟩, hName⟩
    · rintro ⟨c, ⟨hc, hKind⟩, hName⟩
      exact ⟨c, hc, hName, hKind⟩
  rw [hNames, hNames, mem_type_names, promotesType_iff, mem_function_names,
    promotesFunction_iff_isFunctionCommand]
  exact ⟨Iff.rfl, Iff.rfl⟩

/-- A package with a subcommand that can be run, a function that it claims and a function with a wrapper. -/
def taskPackage : PackageScan :=
  (new "ops".toList).feed
    [⟨"ops/root.go".toList, ("package ops\n\ntype Root struct \x7b\n\tLint LintTask \x60gantry:\"subcommand\"\x60\n\x7d\n\n" ++
        "type LintTask struct\x7b\x7d\n\nfunc (LintTask) Run() \x7b\x7d\n\nfunc Lint() \x7b\x7d\n").toList⟩,
      ⟨"ops/build.go".toList, ("package ops\n\nfunc Build() \x7b\x7d\n\nfunc Test() \x7b\x7d\n\n" ++
        "type BuildCommand struct\x7b\x7d\n\nfunc (b *BuildCommand) Run() error \x7b return nil \x7d\n").toList⟩]

theorem taskPackage_eq : taskPackage =
    { new "ops".toList with
      packageName := some "ops".toList
      candidates := [.type "Root".toList "ops/root.go".toList true,
        .type "LintTask".toList "ops/root.go".toList false,
        .function "Lint".toList "ops/root.go".toList [] ⟨false, false⟩,
        .function "Build".toList "ops/build.go".toList [] ⟨false, false⟩,
        .function "Test".toList "ops/build.go".toList [] ⟨false, false⟩,
        .type "BuildCommand".toList "ops/build.go".toList false]
      links := [⟨"Root".toList, "Lint".toList, "lint".toList, "LintTask".toList⟩]
      runMethods := [("BuildCommand".toList, ⟨false, true⟩), ("LintTask".toList, ⟨false, false⟩)] } := by
  decide +kernel

theorem finish_taskPackage : taskPackage.finish = .ok taskPackage.model := by
  refine (finish_eq_ok_iff _ _).mpr ⟨?_, ?_, rfl⟩ <;> rw [taskPackage_eq]
  · rfl
  · rw [SameIdentifier]
    decide

theorem mem_commands_finish_taskPackage : taskPackage.finish = .ok taskPackage.model ∧
    (¬ ∃ c ∈ taskPackage.model.commands, c.name = "Build".toList ∧ c.kind = .function) ∧
    ∃ c ∈ taskPackage.model.commands, c.name = "BuildCommand".toList ∧ c.kind = .type := by
  have hWrapper : taskPackage.IsTypeCommand "BuildCommand".toList := by
    rw [taskPackage_eq]
    exact ⟨⟨_, _, .tail _ (.tail _ (.tail _ (.tail _ (.tail _ (.head _)))))⟩, by decide, .inl ⟨_, .head _⟩⟩
  have hBuild := (mem_commands_finish_iff finish_taskPackage "Build".toList).2
  have hType := (mem_commands_finish_iff finish_taskPackage "BuildCommand".toList).1
  exact ⟨finish_taskPackage, fun h => (hBuild.mp h).unwrapped hWrapper, hType.mpr hWrapper⟩

end GoCommands.PackageScan
