import GoCommands.Proofs.Wrapper.Scanning

/-! # A file of types beside other files

A file without functions and without subcommand fields adds its type names to a scan and nothing else.
-/

namespace GoCommands.DirectoryScan

/-- A file with types that have no subcommand fields, and no functions. -/
structure OnlyTypes (unit : Go.SourceFile) : Prop where
  functions : unit.functions = []
  links : ∀ spec ∈ unit.typeSpecs, spec.links = []

theorem OnlyTypes.wrapped {unit : Go.SourceFile} (h : OnlyTypes unit) : unit.wrapped = [] := by
  refine List.filterMap_eq_nil_iff.mpr fun item hItem => ?_
  have hFunction : item.function? = none := List.filterMap_eq_nil_iff.mp h.functions item hItem
  rw [Go.Item.wrapped?, Go.Item.command?, hFunction]
  rfl

theorem OnlyTypes.callable {unit : Go.SourceFile} (h : OnlyTypes unit) : unit.Callable := by
  intro item hItem f hDeclared
  have hFunction : item.function? = none := List.filterMap_eq_nil_iff.mp h.functions item hItem
  rw [Go.Item.function?, hDeclared] at hFunction
  cases hFunction

section

/-! A file that only has types stands beside other files under some condition. -/

variable {files others : List TaggedFile} {file : TaggedFile} {unit : Go.SourceFile} {p : Prop}
  (hFiles : ∀ f, f ∈ files ↔ f ∈ others ∨ p ∧ f = file)
  (hParse : Go.SourceFile.parse file.content = some unit)
include hFiles hParse

theorem mem_parsed_beside (u : ScannedFile) :
    u ∈ TaggedFile.parsed files ↔ u ∈ TaggedFile.parsed others ∨ p ∧ u = (file.path, unit) := by
  rw [TaggedFile.mem_parsed, TaggedFile.mem_parsed]
  constructor
  · rintro ⟨f, hf, hUnit, hPath⟩
    rcases (hFiles f).mp hf with hOther | ⟨hp, rfl⟩
    · exact .inl ⟨f, hOther, hUnit, hPath⟩
    · rw [hParse] at hUnit
      exact .inr ⟨hp, Prod.ext hPath.symm (Option.some.inj hUnit).symm⟩
  · rintro (⟨f, hOther, hUnit, hPath⟩ | ⟨hp, rfl⟩)
    · exact ⟨f, (hFiles f).mpr (.inl hOther), hUnit, hPath⟩
    · exact ⟨file, (hFiles file).mpr (.inr ⟨hp, rfl⟩), hParse, rfl⟩

theorem mem_typeNames_beside (n : Text) : n ∈ (ofFiles files).typeNames ↔
    n ∈ (ofFiles others).typeNames ∨ p ∧ n ∈ unit.typeSpecs.map Go.TypeSpec.name := by
  rw [mem_typeNames_ofFiles, mem_typeNames_ofFiles, List.mem_map]
  simp only [mem_parsed_beside hFiles hParse, or_and_right, exists_or, and_assoc, exists_and_left, exists_eq_left]

variable (hTypes : OnlyTypes unit)
include hTypes

theorem mem_functions_beside (f : WrappedFunction) :
    f ∈ (ofFiles files).functions ↔ f ∈ (ofFiles others).functions := by
  rw [functions_ofFiles, functions_ofFiles, List.mem_flatMap, List.mem_flatMap]
  simp only [mem_parsed_beside hFiles hParse, or_and_right, exists_or, and_assoc, exists_and_left,
    exists_eq_left, hTypes.wrapped, List.not_mem_nil, and_false, or_false]

theorem mem_claimedNames_beside (n : Text) :
    n ∈ (ofFiles files).claimedNames ↔ n ∈ (ofFiles others).claimedNames := by
  rw [mem_claimedNames_ofFiles, mem_claimedNames_ofFiles]
  constructor
  · rintro ⟨u, hu, spec, hSpec, link, hLink, hName⟩
    rcases (mem_parsed_beside hFiles hParse u).mp hu with hOther | ⟨-, rfl⟩
    · exact ⟨u, hOther, spec, hSpec, link, hLink, hName⟩
    · rw [hTypes.links spec hSpec] at hLink
      cases hLink
  · rintro ⟨u, hu, hName⟩
    exact ⟨u, (mem_parsed_beside hFiles hParse u).mpr (.inl hu), hName⟩

theorem mem_eligible_beside (f : WrappedFunction) :
    f ∈ (ofFiles files).eligible ↔ f ∈ (ofFiles others).eligible := by
  rw [mem_eligible, mem_eligible, mem_functions_beside hFiles hParse hTypes,
    mem_claimedNames_beside hFiles hParse hTypes]

theorem scannable_beside (hOthers : Scannable others)
    (hPackage : ∀ a ∈ unit.packageName, ∀ u ∈ TaggedFile.parsed others, ∀ b ∈ u.2.packageName, a = b) :
    Scannable files := by
  have hAll : Scannable (file :: others) := (scannable_cons hParse others).mpr ⟨hTypes.callable, hPackage, hOthers⟩
  have hSub : ∀ f ∈ files, f ∈ file :: others := by
    intro f hf
    rcases (hFiles f).mp hf with hOther | ⟨-, rfl⟩
    · exact .tail _ hOther
    · exact .head _
  exact hAll.of_subset hSub

end

end GoCommands.DirectoryScan
