import GoCommands.Proofs.Package.Scanning

/-! # What a file that fails leaves

A file fails before anything of it is recorded, or at its first exported function that cannot be called as a
command. In the second case the scan keeps the package clause and the declarations before that function, so the
files scanned after it find a known state.
-/

namespace GoCommands

namespace Go

namespace Item

/-- The exported function of an item that cannot be called as a command, and what is wrong with it. -/
def rejected? (context : ContextImport) (item : Item) : Option (FunctionDecl × SignatureProblem) :=
  match item.declaration with
  | .function f =>
    if CommandName.isExported f.name then
      match f.signature.invocation context with
      | .ok _ => none
      | .error problem => some (f, problem)
    else none
  | _ => none

theorem rejected?_eq_some_iff (context : ContextImport) (item : Item) (f : FunctionDecl)
    (problem : SignatureProblem) :
    item.rejected? context = some (f, problem) ↔ item.declaration = .function f ∧
      CommandName.isExported f.name ∧ f.signature.invocation context = .error problem := by
  rw [rejected?]
  cases item.declaration with
  | function g =>
    simp only [Declaration.function.injEq]
    by_cases hExported : CommandName.isExported g.name
    · rw [if_pos hExported]
      cases hInvocation : g.signature.invocation context with
      | ok invocation =>
        refine iff_of_false (by simp) ?_
        rintro ⟨rfl, -, hError⟩
        rw [hInvocation] at hError
        cases hError
      | error found =>
        simp only [Option.some.injEq, Prod.mk.injEq]
        constructor
        · rintro ⟨rfl, rfl⟩
          exact ⟨rfl, hExported, hInvocation⟩
        · rintro ⟨rfl, -, hError⟩
          exact ⟨rfl, Except.error.inj (hInvocation.symm.trans hError)⟩
    · rw [if_neg hExported]
      refine iff_of_false (by simp) ?_
      rintro ⟨rfl, h, -⟩
      exact hExported h
  | _ => simp

theorem rejected?_eq_none_iff (context : ContextImport) (item : Item) :
    item.rejected? context = none ↔ item.Callable context := by
  constructor
  · intro hNone f hFunction hExported
    cases hInvocation : f.signature.invocation context with
    | ok invocation => exact ⟨invocation, rfl⟩
    | error problem =>
      have hSome := (rejected?_eq_some_iff context item f problem).mpr ⟨hFunction, hExported, hInvocation⟩
      rw [hNone] at hSome
      cases hSome
  · intro hCallable
    rw [Option.eq_none_iff_forall_ne_some]
    rintro ⟨f, problem⟩ hSome
    obtain ⟨hFunction, hExported, hError⟩ := (rejected?_eq_some_iff context item f problem).mp hSome
    obtain ⟨invocation, hOk⟩ := hCallable f hFunction hExported
    rw [hError] at hOk
    cases hOk

end Item

/-- The items that a scan reaches: those before the first function that is rejected. -/
def reached (context : ContextImport) (items : List Item) : List Item :=
  items.takeWhile fun item => (item.rejected? context).isNone

theorem reached_of_first {context : ContextImport} {before behind : List Item} {item : Item}
    {found : FunctionDecl × SignatureProblem} (hBefore : ∀ earlier ∈ before, earlier.rejected? context = none)
    (hItem : item.rejected? context = some found) : reached context (before ++ item :: behind) = before := by
  have hAll : ∀ earlier ∈ before, (earlier.rejected? context).isNone := by
    intro earlier hEarlier
    rw [hBefore earlier hEarlier]
    rfl
  rw [reached, List.takeWhile_append_of_pos hAll, List.takeWhile_cons_of_neg (by simp [hItem]), List.append_nil]

end Go

namespace PackageScan

theorem ne_entryPointName {name : Text} (h : CommandName.isExported name) : name ≠ entryPointName := by
  rintro rfl
  rw [not_isExported_entryPoint] at h
  cases h

theorem recordItem_eq (s : PackageScan) (context : Go.ContextImport) (path : Path) (item : Go.Item) :
    s.recordItem context path item =
      match item.rejected? context with
      | none => .ok (s.recordedItem context path item)
      | some (f, problem) => .error (.invalidSignature f.name path problem) := by
  cases hRejected : item.rejected? context with
  | none =>
    have hCallable := (Go.Item.rejected?_eq_none_iff context item).mp hRejected
    exact (recordItem_ok_iff s _ context path item).mpr ⟨hCallable, rfl⟩
  | some found =>
    obtain ⟨f, problem⟩ := found
    obtain ⟨hFunction, hExported, hError⟩ := (Go.Item.rejected?_eq_some_iff context item f problem).mp hRejected
    have hName := ne_entryPointName hExported
    simp [recordItem, recordFunction, hFunction, hName, hExported, hError]

/-- The items that are reached are recorded, in their order, and the first function that is rejected gives the
error. -/
theorem recordItems_eq (context : Go.ContextImport) (path : Path) (items : List Go.Item) (s : PackageScan) :
    s.recordItems context path items =
      ((Go.reached context items).foldl (fun s item => s.recordedItem context path item) s,
        (items.findSome? (Go.Item.rejected? context)).map fun found =>
          .invalidSignature found.1.name path found.2) := by
  induction items generalizing s with
  | nil => rfl
  | cons item items ih =>
    rw [recordItems, recordItem_eq, List.findSome?_cons, Go.reached]
    cases hRejected : item.rejected? context with
    | none => simp [hRejected, ih, Go.reached]
    | some found => simp [hRejected]

/-- Items fail at the first function that is rejected, when those before it have been recorded. -/
theorem recordItems_error_iff (context : Go.ContextImport) (path : Path) (items : List Go.Item)
    (s s' : PackageScan) (e : DiscoverError) :
    s.recordItems context path items = (s', some e) ↔ ∃ before item behind f problem,
      items = before ++ item :: behind ∧ (∀ earlier ∈ before, earlier.Callable context) ∧
      item.declaration = .function f ∧ CommandName.isExported f.name ∧
      f.signature.invocation context = .error problem ∧ e = .invalidSignature f.name path problem ∧
      s' = before.foldl (fun s item => s.recordedItem context path item) s := by
  rw [recordItems_eq, Prod.mk.injEq, Option.map_eq_some_iff]
  constructor
  · rintro ⟨rfl, ⟨f, problem⟩, hFirst, rfl⟩
    obtain ⟨before, item, behind, rfl, hRejected, hBefore⟩ := List.findSome?_eq_some_iff.mp hFirst
    obtain ⟨hFunction, hExported, hProblem⟩ := (Go.Item.rejected?_eq_some_iff context item f problem).mp hRejected
    rw [Go.reached_of_first hBefore hRejected]
    refine ⟨before, item, behind, f, problem, rfl, ?_, hFunction, hExported, hProblem, rfl, rfl⟩
    exact fun earlier hEarlier => (Go.Item.rejected?_eq_none_iff context earlier).mp (hBefore earlier hEarlier)
  · rintro ⟨before, item, behind, f, problem, rfl, hCallable, hFunction, hExported, hProblem, rfl, rfl⟩
    have hRejected := (Go.Item.rejected?_eq_some_iff context item f problem).mpr ⟨hFunction, hExported, hProblem⟩
    have hBefore : ∀ earlier ∈ before, earlier.rejected? context = none :=
      fun earlier hEarlier => (Go.Item.rejected?_eq_none_iff context earlier).mpr (hCallable earlier hEarlier)
    rw [Go.reached_of_first hBefore hRejected]
    exact ⟨rfl, (f, problem), List.findSome?_eq_some_iff.mpr ⟨before, item, behind, rfl, hRejected, hBefore⟩, rfl⟩

theorem recordPackage_error_iff (s : PackageScan) (path : Path) (unit : Go.SourceFile) (e : DiscoverError) :
    s.recordPackage path unit = .error e ↔
      (unit.packageName = none ∧ e = .missingPackage path) ∨
      ∃ name existing, unit.packageName = some name ∧ s.packageName = some existing ∧ existing ≠ name ∧
        e = .multiplePackages s.dir existing name := by
  rw [recordPackage]
  cases unit.packageName with
  | none => simp [@eq_comm _ e]
  | some name =>
    cases s.packageName with
    | none => simp
    | some existing =>
      by_cases hEq : existing = name
      · simp [hEq]
      · simp [hEq, @eq_comm _ e]

/-- How a file fails: the error, and the scan that it leaves. -/
inductive FailsWith (s : PackageScan) (file : TaggedFile) : DiscoverError → PackageScan → Prop
  | source (hParse : Go.SourceFile.parse file.content = none) : s.FailsWith file (.badSource file.path) s
  | clause {unit : Go.SourceFile} (hParse : Go.SourceFile.parse file.content = some unit)
      (hClause : unit.packageName = none) : s.FailsWith file (.missingPackage file.path) s
  | packages {unit : Go.SourceFile} {name existing : Text}
      (hParse : Go.SourceFile.parse file.content = some unit) (hClause : unit.packageName = some name)
      (hScan : s.packageName = some existing) (hApart : existing ≠ name) :
      s.FailsWith file (.multiplePackages s.dir existing name) s
  /-- The function is the first that is rejected. What stands before it is recorded, behind the package clause, and
  nothing else. -/
  | signature {unit : Go.SourceFile} {name : Text} {before behind : List Go.Item} {item : Go.Item}
      {f : Go.FunctionDecl} {problem : Go.SignatureProblem}
      (hParse : Go.SourceFile.parse file.content = some unit) (hClause : unit.packageName = some name)
      (hScan : ∀ existing ∈ s.packageName, existing = name) (hItems : unit.items = before ++ item :: behind)
      (hBefore : ∀ earlier ∈ before, earlier.Callable unit.contextImport)
      (hFunction : item.declaration = .function f) (hName : f.name ≠ entryPointName)
      (hExported : CommandName.isExported f.name)
      (hProblem : f.signature.invocation unit.contextImport = .error problem) :
      s.FailsWith file (.invalidSignature f.name file.path problem)
        (before.foldl (fun s item => s.recordedItem unit.contextImport file.path item) (s.recordedPackage unit))

theorem scanFile_of_package {s : PackageScan} {file : TaggedFile} {unit : Go.SourceFile} {name : Text}
    (hParse : Go.SourceFile.parse file.content = some unit) (hClause : unit.packageName = some name)
    (hScan : ∀ existing ∈ s.packageName, existing = name) :
    s.scanFile file = (s.recordedPackage unit).recordItems unit.contextImport file.path unit.items := by
  have hPackage := (recordPackage_ok_iff s _ file.path unit).mpr ⟨⟨name, hClause, hScan⟩, rfl⟩
  rw [scanFile, hParse]
  simp only [hPackage]

/-- A file that fails leaves the scan as it was, or with what stands before its first rejected function. -/
theorem scanFile_fails_iff (s s' : PackageScan) (file : TaggedFile) (e : DiscoverError) :
    s.scanFile file = (s', some e) ↔ s.FailsWith file e s' := by
  constructor
  · intro h
    cases hParse : Go.SourceFile.parse file.content with
    | none =>
      rw [scanFile, hParse] at h
      cases h
      exact .source hParse
    | some unit =>
      cases hPackage : s.recordPackage file.path unit with
      | error found =>
        rw [scanFile, hParse] at h
        simp only [hPackage] at h
        cases h
        rcases (recordPackage_error_iff s file.path unit _).mp hPackage with
          ⟨hClause, rfl⟩ | ⟨name, existing, hClause, hScan, hApart, rfl⟩
        · exact .clause hParse hClause
        · exact .packages hParse hClause hScan hApart
      | ok t =>
        obtain ⟨⟨name, hClause, hScan⟩, -⟩ := (recordPackage_ok_iff s t file.path unit).mp hPackage
        rw [scanFile_of_package hParse hClause hScan, recordItems_error_iff] at h
        obtain ⟨before, item, behind, f, problem, hItems, hBefore, hFunction, hExported, hProblem, rfl, rfl⟩ := h
        exact .signature hParse hClause hScan hItems hBefore hFunction (ne_entryPointName hExported) hExported
          hProblem
  · intro h
    cases h with
    | source hParse => rw [scanFile, hParse]
    | clause hParse hClause =>
      have hPackage := (recordPackage_error_iff s file.path _ _).mpr (.inl ⟨hClause, rfl⟩)
      rw [scanFile, hParse]
      simp only [hPackage]
    | packages hParse hClause hScan hApart =>
      have hPackage := (recordPackage_error_iff s file.path _ _).mpr (.inr ⟨_, _, hClause, hScan, hApart, rfl⟩)
      rw [scanFile, hParse]
      simp only [hPackage]
    | signature hParse hClause hScan hItems hBefore hFunction _ hExported hProblem =>
      rw [scanFile_of_package hParse hClause hScan, recordItems_error_iff]
      exact ⟨_, _, _, _, _, hItems, hBefore, hFunction, hExported, hProblem, rfl, rfl⟩

end PackageScan

end GoCommands
