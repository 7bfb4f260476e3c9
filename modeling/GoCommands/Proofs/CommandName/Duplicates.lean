import GoCommands.Proofs.CommandName.Hyphens
import GoCommands.Proofs.Go.DeclaredNames
import GoCommands.Proofs.Package.Rejection

/-! # Identifiers with one command name

What a package scan records has the names of declarations, so none of them has a hyphen, and two of them share a command
name only if they are the same in small letters. The assembly reports no others as duplicates.
-/

namespace GoCommands

def Candidate.name : Candidate → Text
  | .function name _ _ _ => name
  | .type name _ _ => name

namespace Go

theorem IsWord.hyphen_not_mem {w : Text} (h : IsWord w) : '-' ∉ w := h.not_mem (by decide) (by decide)

/-- A candidate has the name of a type or of a function. -/
theorem Item.name_of_mem_candidates {item : Item} {context : ContextImport} {path : Path} {c : Candidate}
    (h : c ∈ item.candidates context path) :
    (∃ spec ∈ item.typeSpecs, spec.name = c.name) ∨ ∃ f, item.function? = some f ∧ f.name = c.name := by
  rcases List.mem_append.mp h with hType | hFunction
  · obtain ⟨spec, hSpec, rfl⟩ := List.mem_map.mp hType
    exact .inl ⟨spec, List.mem_of_mem_filter hSpec, rfl⟩
  · obtain ⟨⟨f, invocation⟩, hCommand, rfl⟩ := List.mem_map.mp hFunction
    have hItem := (command?_eq_some_iff context item f invocation).mp (Option.mem_toList.mp hCommand)
    exact .inr ⟨f, hItem.1, rfl⟩

end Go

namespace PackageScan

theorem isWord_of_mem_candidates {dir : Path} {files : List TaggedFile} {c : Candidate}
    (h : c ∈ ((new dir).feed files).candidates) : Go.IsWord c.name := by
  rw [candidates_feed] at h
  obtain ⟨unit, hUnit, h⟩ := List.mem_flatMap.mp h
  obtain ⟨item, hItem, hCandidate⟩ := List.mem_flatMap.mp h
  obtain ⟨file, -, hParse, -⟩ := (TaggedFile.mem_parsed files unit).mp (List.mem_of_mem_filter hUnit)
  have hDeclared : item ∈ unit.2.items := (List.takeWhile_prefix _).subset hItem
  rcases Go.Item.name_of_mem_candidates hCandidate with ⟨spec, hSpec, hName⟩ | ⟨f, hFunction, hName⟩
  · rw [← hName]
    exact Go.SourceFile.isWord_of_mem_typeSpecs hParse (List.mem_flatMap.mpr ⟨item, hDeclared, hSpec⟩)
  · rw [← hName]
    exact Go.SourceFile.isWord_of_function? hParse hDeclared hFunction

theorem IsCommand.isWord {dir : Path} {files : List TaggedFile} {name : Text}
    (h : ((new dir).feed files).IsCommand name) : Go.IsWord name := by
  rcases h with hType | hFunction
  · obtain ⟨file, hasSubcommands, hCandidate⟩ := hType.declared
    exact isWord_of_mem_candidates hCandidate
  · obtain ⟨file, description, invocation, hCandidate⟩ := hFunction.declared
    exact isWord_of_mem_candidates hCandidate

theorem Clash.lowered_eq {dir : Path} {files : List TaggedFile} {name first second : Text}
    (h : ((new dir).feed files).Clash name first second) : Text.lowered first = Text.lowered second :=
  CommandName.lowered_eq_of_ofIdentifier_eq h.firstCommand.isWord.hyphen_not_mem
    h.secondCommand.isWord.hyphen_not_mem (h.firstName.trans h.secondName.symm)

end PackageScan

namespace CommandName

/-- A command name is its identifier in small letters with isolated hyphens in it. So identifiers that share one differ
in the case of their letters at most, and the assembly of a package reports two that differ in nothing else. -/
theorem isolated_hyphens :
    (∀ ident : Text, '-' ∉ ident →
      (ofIdentifier ident).filter (· != '-') = Text.lowered ident ∧ Isolated (ofIdentifier ident)) ∧
    (∀ first second : Text, '-' ∉ first → '-' ∉ second → ofIdentifier first = ofIdentifier second →
      Text.lowered first = Text.lowered second) ∧
    ∀ (dir : Path) (files : List TaggedFile) (name first second : Text),
      ((PackageScan.new dir).feed files).finish = .error (.duplicateCommand name first second) →
        first ≠ second ∧ Text.lowered first = Text.lowered second := by
  refine ⟨fun ident h => ⟨filter_ofIdentifier h, isolated_ofIdentifier h⟩, ?_, ?_⟩
  · exact fun first second => lowered_eq_of_ofIdentifier_eq
  · intro dir files name first second h
    have hClash := PackageScan.clash_of_finish h
    exact ⟨hClash.apart, hClash.lowered_eq⟩

def apiFiles : List TaggedFile :=
  [⟨"ops/a.go".toList, ("package ops\n\nfunc ApiServer() {}\n\ntype APIServer struct{}\n\n" ++
    "func (APIServer) Run() {}\n").toList⟩]

theorem isolated_hyphens_apiFiles :
    (ofIdentifier "APIServer".toList).filter (· != '-') = "apiserver".toList ∧
    Isolated (ofIdentifier "APIServer".toList) ∧
    ((PackageScan.new "ops".toList).feed apiFiles).finish =
      .error (.duplicateCommand "api-server".toList "APIServer".toList "ApiServer".toList) ∧
    Text.lowered "APIServer".toList = Text.lowered "ApiServer".toList := by
  obtain ⟨hName, -, hReported⟩ := isolated_hyphens
  have hFinish : ((PackageScan.new "ops".toList).feed apiFiles).finish =
      .error (.duplicateCommand "api-server".toList "APIServer".toList "ApiServer".toList) := by
    decide +kernel
  obtain ⟨hSmall, hIsolated⟩ := hName "APIServer".toList (by decide)
  exact ⟨hSmall, hIsolated, hFinish, (hReported _ _ _ _ _ hFinish).2⟩

end CommandName

end GoCommands
