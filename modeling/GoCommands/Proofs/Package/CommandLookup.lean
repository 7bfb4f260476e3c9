import GoCommands.Proofs.Package.CommandNames

/-! # Looking up commands

The search by identifier halves a range of the commands and keeps the half that has a command with the identifier,
if there is one at all. This needs the order in which the assembly leaves the commands, but not that their
identifiers are all different: a type and a function may share one, and either is an answer.
-/

namespace GoCommands

namespace PackageModel

/-- The range of `size` commands from `base` on has a command with the identifier. -/
def Holds (commands : List CommandInfo) (name : Text) (base size : Nat) : Prop :=
  ∃ i, base ≤ i ∧ i < base + size ∧ ∃ c, commands[i]? = some c ∧ c.name = name

section

variable {commands : List CommandInfo} {name : Text}

theorem name_le_of_le (hSorted : commands.Pairwise fun a b => a.name ≤ b.name) {i j : Nat} {c d : CommandInfo}
    (hc : commands[i]? = some c) (hd : commands[j]? = some d) (hLe : i ≤ j) : c.name ≤ d.name := by
  obtain ⟨hi, rfl⟩ := List.getElem?_eq_some_iff.mp hc
  obtain ⟨hj, rfl⟩ := List.getElem?_eq_some_iff.mp hd
  rcases Nat.eq_or_lt_of_le hLe with rfl | hLess
  · exact le_rfl
  · exact List.pairwise_iff_getElem.mp hSorted i j hi hj hLess

/-- The half that the search keeps has a command with the identifier if the range has one. -/
theorem Holds.half (hSorted : commands.Pairwise fun a b => a.name ≤ b.name) {base size : Nat}
    (hBound : base + size ≤ commands.length) (hSize : 1 < size) (h : Holds commands name base size) :
    Holds commands name
      (if (commands[base + size / 2]?).any fun c => name < c.name then base else base + size / 2)
      (size - size / 2) := by
  obtain ⟨i, hLow, hHigh, c, hc, rfl⟩ := h
  have hMiddle : commands[base + size / 2]? = some commands[base + size / 2] := List.getElem?_eq_getElem (by omega)
  rw [hMiddle, Option.any_some]
  split
  · -- The command in the middle stands behind every command with the identifier.
    rename_i hLess
    have hBefore : i < base + size / 2 := by
      by_contra hNot
      exact not_lt.mpr (name_le_of_le hSorted hMiddle hc (by omega)) (by simpa using hLess)
    exact ⟨i, hLow, by omega, c, hc, rfl⟩
  · rename_i hNotLess
    have hLe : commands[base + size / 2].name ≤ c.name := by simpa using hNotLess
    rcases Nat.lt_or_ge i (base + size / 2) with hBefore | hBehind
    · -- The command in the middle is not behind the identifier, so it has it too.
      have hEq := le_antisymm hLe (name_le_of_le hSorted hc hMiddle hBefore.le)
      exact ⟨base + size / 2, by omega, by omega, _, hMiddle, hEq⟩
    · exact ⟨i, hBehind, by omega, c, hc, rfl⟩

theorem narrow_holds (hSorted : commands.Pairwise fun a b => a.name ≤ b.name) {fuel base size : Nat}
    (hBound : base + size ≤ commands.length) (hFuel : size ≤ fuel + 1) (h : Holds commands name base size) :
    Holds commands name (narrow commands name fuel base size) 1 := by
  induction fuel generalizing base size with
  | zero =>
    obtain ⟨i, hLow, hHigh, hFound⟩ := h
    exact ⟨i, hLow, by rw [narrow]; omega, hFound⟩
  | succ fuel ih =>
    rw [narrow]
    split
    · obtain ⟨i, hLow, hHigh, hFound⟩ := h
      exact ⟨i, hLow, by omega, hFound⟩
    · rename_i hSize
      refine ih ?_ (by omega) (h.half hSorted hBound (by omega))
      split <;> omega

end

variable {m : PackageModel}

theorem command_eq_some {q : Text} {c : CommandInfo} (h : m.command q = some c) : c ∈ m.commands ∧ c.name = q := by
  obtain ⟨hFound, hName⟩ := Option.filter_eq_some_iff.mp h
  exact ⟨List.mem_of_getElem? hFound, beq_iff_eq.mp hName⟩

theorem isSome_command_iff (hSorted : m.commands.Pairwise fun a b => a.name ≤ b.name) (q : Text) :
    (m.command q).isSome ↔ ∃ c ∈ m.commands, c.name = q := by
  constructor
  · intro h
    obtain ⟨c, hc⟩ := Option.isSome_iff_exists.mp h
    exact ⟨c, command_eq_some hc⟩
  · rintro ⟨c, hc, hName⟩
    obtain ⟨i, hi⟩ := List.mem_iff_getElem?.mp hc
    have hBound : i < m.commands.length := (List.getElem?_eq_some_iff.mp hi).1
    have hWhole : Holds m.commands q 0 m.commands.length := ⟨i, by omega, by omega, c, hi, hName⟩
    have hEnd : Holds m.commands q (narrow m.commands q m.commands.length 0 m.commands.length) 1 :=
      narrow_holds hSorted (by omega) (by omega) hWhole
    obtain ⟨j, hLow, hHigh, d, hd, hFound⟩ := hEnd
    obtain rfl : j = narrow m.commands q m.commands.length 0 m.commands.length := by omega
    rw [command, hd, Option.filter_some, if_pos (beq_iff_eq.mpr hFound)]
    rfl

theorem isSome_findByCommandName_iff (q : Text) :
    (m.findByCommandName q).isSome ↔ ∃ c ∈ m.commands, c.commandName = q := by
  rw [findByCommandName, List.find?_isSome]
  simp only [beq_iff_eq]

theorem findByCommandName_eq_some_iff (q : Text) (c : CommandInfo) :
    m.findByCommandName q = some c ↔ c.commandName = q ∧ ∃ before behind, m.commands = before ++ c :: behind ∧
      ∀ b ∈ before, b.commandName ≠ q := by
  rw [findByCommandName, List.find?_eq_some_iff_append]
  simp

end PackageModel

namespace PackageScan

/-- Both lookups find a command exactly where there is one of the name, and by either name of a command they find
one with its identifier. -/
theorem finish_lookups {s : PackageScan} {m : PackageModel} (h : s.finish = .ok m) (q : Text) :
    ((m.command q).isSome ↔ ∃ c ∈ m.commands, c.name = q) ∧
    (∀ c, m.command q = some c → c ∈ m.commands ∧ c.name = q) ∧
    ((m.findByCommandName q).isSome ↔ ∃ c ∈ m.commands, c.commandName = q) ∧
    (∀ c, m.findByCommandName q = some c → c.commandName = q ∧ ∃ before behind,
      m.commands = before ++ c :: behind ∧ ∀ b ∈ before, b.commandName ≠ q) ∧
    (∀ c ∈ m.commands, (∃ d, m.command c.name = some d ∧ d.name = c.name) ∧
      ∃ d, m.findByCommandName c.commandName = some d ∧ d.name = c.name) := by
  obtain ⟨-, hSame, rfl⟩ := (finish_eq_ok_iff s m).mp h
  refine ⟨PackageModel.isSome_command_iff s.le_of_sorted q, fun c => PackageModel.command_eq_some,
    PackageModel.isSome_findByCommandName_iff q,
    fun c => (PackageModel.findByCommandName_eq_some_iff q c).mp, fun c hc => ⟨?_, ?_⟩⟩
  · have hSome := (PackageModel.isSome_command_iff s.le_of_sorted c.name).mpr ⟨c, hc, rfl⟩
    obtain ⟨d, hd⟩ := Option.isSome_iff_exists.mp hSome
    exact ⟨d, hd, (PackageModel.command_eq_some hd).2⟩
  · have hSome := (PackageModel.isSome_findByCommandName_iff c.commandName).mpr ⟨c, hc, rfl⟩
    obtain ⟨d, hd⟩ := Option.isSome_iff_exists.mp hSome
    have hd' : d ∈ s.model.commands := List.mem_of_find?_eq_some hd
    have hName := ((PackageModel.findByCommandName_eq_some_iff c.commandName d).mp hd).1
    have hFound : ∀ e ∈ s.model.commands, e ∈ s.found := fun e he => List.mem_mergeSort.mp he
    exact ⟨d, hd, hSame d (hFound d hd') c (hFound c hc) hName⟩

/-- The type and the function of one identifier are found by it and by its command name. -/
theorem finish_lookups_oneIdentifier : oneIdentifier.finish = .ok oneIdentifier.model ∧
    (∃ d, oneIdentifier.model.command "Build".toList = some d ∧ d.name = "Build".toList) ∧
    (∃ d, oneIdentifier.model.findByCommandName "build".toList = some d ∧ d.name = "Build".toList) ∧
    (oneIdentifier.model.command "build".toList).isSome = false := by
  have hBuild : ⟨"Build".toList, .type, "ops/a.go".toList, [], ⟨false, false⟩⟩ ∈ oneIdentifier.model.commands := by
    refine (mem_commands_model _ _).mpr (.inl ?_)
    rw [oneIdentifier_eq]
    decide
  have hNames : ∀ c ∈ oneIdentifier.found, c.name = "Build".toList := by
    rw [oneIdentifier_eq]
    decide
  obtain ⟨hExact, -, -, -, hBoth⟩ := finish_lookups finish_oneIdentifier "build".toList
  obtain ⟨hByName, hByCommandName⟩ := hBoth _ hBuild
  refine ⟨finish_oneIdentifier, hByName, hByCommandName, ?_⟩
  rw [Bool.eq_false_iff, ne_eq, hExact]
  rintro ⟨c, hc, hName⟩
  rw [hNames c (List.mem_mergeSort.mp hc)] at hName
  cases hName

end PackageScan

end GoCommands
