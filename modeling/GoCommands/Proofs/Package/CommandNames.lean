import GoCommands.Proofs.Package.Promotion
import GoCommands.Proofs.Text.Order

/-! # The names of the commands of a package

The assembly compares identifiers when two command names are equal, so it lets a type and a function
of one identifier pass. This is the only way in which two commands come to share a name.
-/

namespace GoCommands

/-- The identifiers strictly ascend, and no two commands answer to one name. -/
structure PackageModel.Distinct (m : PackageModel) : Prop where
  ascending : CommandInfo.Ascending m.commands
  commandNames : m.commands.Pairwise fun a b => a.commandName ≠ b.commandName

namespace PackageScan

/-- Commands with one command name have one identifier. -/
def SameIdentifier (commands : List CommandInfo) : Prop :=
  ∀ a ∈ commands, ∀ b ∈ commands, a.commandName = b.commandName → a.name = b.name

theorem SameIdentifier.mono {as bs : List CommandInfo} (h : SameIdentifier bs) (hSub : as ⊆ bs) :
    SameIdentifier as :=
  fun a ha b hb => h a (hSub ha) b (hSub hb)

/-- A command that an earlier one stands for need not be compared with the later ones. -/
theorem SameIdentifier.insert_known {as bs : List CommandInfo} {c d : CommandInfo} (hd : d ∈ as)
    (hCommand : d.commandName = c.commandName) (hName : d.name = c.name)
    (h : SameIdentifier (as ++ bs)) : SameIdentifier (as ++ c :: bs) := by
  have hRest : ∀ e ∈ as ++ bs, c.commandName = e.commandName → c.name = e.name := by
    intro e he hEq
    rw [← hName]
    exact h d (List.mem_append_left _ hd) e he (hCommand.trans hEq)
  intro a ha b hb hEq
  have hSplit : ∀ e ∈ as ++ c :: bs, e = c ∨ e ∈ as ++ bs := by
    intro e he
    simp only [List.mem_append, List.mem_cons] at he ⊢
    exact or_left_comm.mp he
  rcases hSplit a ha with hac | ha <;> rcases hSplit b hb with hbc | hb
  · rw [hac, hbc]
  · rw [hac] at hEq ⊢
    exact hRest b hb hEq
  · rw [hbc] at hEq ⊢
    exact (hRest a ha hEq.symm).symm
  · exact h a ha b hb hEq

theorem collision_eq_none_iff {earlier : List CommandInfo} (hEarlier : SameIdentifier earlier)
    (later : List CommandInfo) : collision earlier later = none ↔ SameIdentifier (earlier ++ later) := by
  -- The commands already passed have no collision among themselves; each step appends one to them.
  induction later generalizing earlier with
  | nil => simpa [collision] using hEarlier
  | cons c rest ih =>
    rw [collision]
    split
    · rename_i other hFind
      have hMem : other ∈ earlier := List.mem_of_find?_eq_some hFind
      have hCommand : other.commandName = c.commandName := by
        simpa using List.find?_some hFind
      split
      · rename_i hName
        rw [beq_iff_eq] at hName
        rw [ih hEarlier]
        refine ⟨SameIdentifier.insert_known hMem hCommand hName, fun h => h.mono ?_⟩
        exact List.append_subset.mpr ⟨List.subset_append_left _ _,
          fun a ha => List.mem_append_right _ (List.mem_cons_of_mem c ha)⟩
      · rename_i hName
        refine iff_of_false (by simp) fun h => hName (beq_iff_eq.mpr ?_)
        exact h other (by simp [hMem]) c (by simp) hCommand
    · rename_i hFind
      have hNew : ∀ a ∈ earlier, a.commandName ≠ c.commandName := by
        intro a ha hEq
        exact List.find?_eq_none.mp hFind a ha (beq_iff_eq.mpr hEq)
      have hKnown : SameIdentifier (earlier ++ [c]) := by
        intro a ha b hb hEq
        simp only [List.mem_append, List.mem_singleton] at ha hb
        rcases ha with ha | rfl <;> rcases hb with hb | rfl
        · exact hEarlier a ha b hb hEq
        · exact absurd hEq (hNew a ha)
        · exact absurd hEq.symm (hNew b hb)
        · rfl
      rw [ih hKnown, List.append_assoc, List.singleton_append]

/-- The promoted types, then the promoted functions. -/
def found (s : PackageScan) : List CommandInfo := s.promoted.types ++ s.unwrapped

def model (s : PackageScan) : PackageModel :=
  { dir := s.dir
    packageName := s.packageName.getD []
    doc := s.doc
    commands := s.found.mergeSort CommandInfo.le
    files := indexByFile (s.found.mergeSort CommandInfo.le) }

theorem collision_found_eq_none_iff (s : PackageScan) : collision [] s.found = none ↔ SameIdentifier s.found := by
  have hNil : SameIdentifier [] := by simp [SameIdentifier]
  rw [collision_eq_none_iff hNil, List.nil_append]

theorem finish_eq_ok_iff (s : PackageScan) (m : PackageModel) :
    s.finish = .ok m ↔ s.entryPoints = [] ∧ SameIdentifier s.found ∧ m = s.model := by
  rw [← collision_found_eq_none_iff, finish]
  cases hEntry : s.entryPoints with
  | cons p ps => simp
  | nil =>
    simp only [List.isEmpty_nil, Bool.not_true, Bool.false_eq_true, if_false, true_and]
    cases hCollision : collision [] s.found with
    | some e =>
      rw [found, unwrapped] at hCollision
      simp [hCollision]
    | none =>
      rw [found, unwrapped] at hCollision
      simp [hCollision, model, found, unwrapped, eq_comm]

theorem mem_commands_model (s : PackageScan) (c : CommandInfo) :
    c ∈ s.model.commands ↔ c ∈ s.promoted.types ∨ c ∈ s.unwrapped := by
  rw [model, List.mem_mergeSort, found, List.mem_append]

/-- The functions left after the elision are still in order. -/
theorem ascending_unwrapped (s : PackageScan) : CommandInfo.Ascending s.unwrapped :=
  s.promoted_ordered.functions.filter _

theorem kind_unwrapped {s : PackageScan} {c : CommandInfo} (h : c ∈ s.unwrapped) : c.kind = .function :=
  s.promoted_ordered.functionKind c (List.mem_of_mem_filter h)

/-- The kind of a command says whether it is a promoted type or a promoted function. -/
theorem mem_types_iff (s : PackageScan) (c : CommandInfo) :
    c ∈ s.promoted.types ↔ c ∈ s.model.commands ∧ c.kind = .type := by
  rw [mem_commands_model]
  constructor
  · intro hType
    exact ⟨.inl hType, s.promoted_ordered.typeKind c hType⟩
  · rintro ⟨hType | hFunction, hKind⟩
    · exact hType
    · rw [kind_unwrapped hFunction] at hKind
      cases hKind

theorem mem_unwrapped_iff (s : PackageScan) (c : CommandInfo) :
    c ∈ s.unwrapped ↔ c ∈ s.model.commands ∧ c.kind = .function := by
  rw [mem_commands_model]
  constructor
  · intro hFunction
    exact ⟨.inr hFunction, kind_unwrapped hFunction⟩
  · rintro ⟨hType | hFunction, hKind⟩
    · rw [s.promoted_ordered.typeKind c hType] at hKind
      cases hKind
    · exact hFunction

theorem mem_function_names (s : PackageScan) (name : Text) :
    name ∈ (s.model.commandsOfKind .function).map CommandInfo.name ↔ s.PromotesFunction name := by
  rw [← mem_names_unwrapped]
  simp only [List.mem_map, PackageModel.commandsOfKind, List.mem_filter, beq_iff_eq, mem_unwrapped_iff]

theorem candidate_of_function_command {s : PackageScan} {c : CommandInfo}
    (h : c ∈ s.model.commandsOfKind .function) :
    .function c.name c.file c.description c.invocation ∈ s.candidates := by
  obtain ⟨hc, hKind⟩ := List.mem_filter.mp h
  have hFunction := (mem_unwrapped_iff s c).mpr ⟨hc, beq_iff_eq.mp hKind⟩
  exact (candidate_of_mem_functions (List.mem_of_mem_filter hFunction)).resolve_left (by simp)

theorem le_of_sorted (s : PackageScan) : s.model.commands.Pairwise fun a b => a.name ≤ b.name :=
  Text.pairwise_mergeSort CommandInfo.name s.found

/-- Two commands of one command name are a type and a function of one identifier. -/
theorem shared_name {s : PackageScan} (h : SameIdentifier s.found) :
    s.model.commands.Pairwise fun a b =>
      a.commandName = b.commandName → a.name = b.name ∧ a.kind ≠ b.kind := by
  have hApart : ∀ {cs : List CommandInfo}, CommandInfo.Ascending cs → cs ⊆ s.found →
      cs.Pairwise fun a b => a.commandName = b.commandName → a.name = b.name ∧ a.kind ≠ b.kind := by
    intro cs hCs hSub
    refine List.Pairwise.imp_of_mem ?_ hCs
    intro a b ha hb hLess hEq
    exact absurd (h a (hSub ha) b (hSub hb) hEq) hLess.ne
  have hFound : s.found.Pairwise fun a b =>
      a.commandName = b.commandName → a.name = b.name ∧ a.kind ≠ b.kind := by
    refine List.pairwise_append.mpr ⟨hApart s.promoted_ordered.types (List.subset_append_left _ _),
      hApart s.ascending_unwrapped (List.subset_append_right _ _), fun a ha b hb hEq => ⟨?_, ?_⟩⟩
    · exact h a (List.mem_append_left _ ha) b (List.mem_append_right _ hb) hEq
    · rw [s.promoted_ordered.typeKind a ha, kind_unwrapped hb]
      simp
  refine ((List.mergeSort_perm s.found CommandInfo.le).pairwise_iff ?_).mpr hFound
  intro a b hab hEq
  obtain ⟨hName, hKind⟩ := hab hEq.symm
  exact ⟨hName.symm, hKind.symm⟩

/-- No identifier is both that of a promoted type and that of a promoted function. -/
theorem names_distinct_iff (s : PackageScan) :
    (s.model.commands.Pairwise fun a b => a.name ≠ b.name) ↔
      ∀ name, ¬ (s.PromotesType name ∧ s.PromotesFunction name) := by
  have hPerm : (s.model.commands.Pairwise fun a b => a.name ≠ b.name) ↔
      s.found.Pairwise fun a b => a.name ≠ b.name :=
    (List.mergeSort_perm s.found CommandInfo.le).pairwise_iff fun hab => hab.symm
  rw [hPerm, found, List.pairwise_append]
  constructor
  · rintro ⟨-, -, hAcross⟩ name ⟨hType, hFunction⟩
    obtain ⟨t, ht, rfl⟩ := List.mem_map.mp ((mem_names_types s name).mpr hType)
    obtain ⟨f, hf, hEq⟩ := List.mem_map.mp ((mem_names_unwrapped s t.name).mpr hFunction)
    exact hAcross t ht f hf hEq.symm
  · intro hApart
    refine ⟨s.promoted_ordered.types.imp fun hab => hab.ne, s.ascending_unwrapped.imp fun hab => hab.ne, ?_⟩
    intro t ht f hf hEq
    refine hApart t.name ⟨(mem_names_types s _).mp (List.mem_map_of_mem ht), ?_⟩
    exact hEq ▸ (mem_names_unwrapped s _).mp (List.mem_map_of_mem hf)

theorem distinct_of_names {s : PackageScan} (h : SameIdentifier s.found)
    (hNames : s.model.commands.Pairwise fun a b => a.name ≠ b.name) : s.model.Distinct where
  ascending := (s.le_of_sorted.and hNames).imp fun hab => lt_of_le_of_ne hab.1 hab.2
  commandNames := ((shared_name h).and hNames).imp fun hab hEq => hab.2 (hab.1 hEq).1

/-- A scan that was fed some files. A file that fails leaves what it recorded. -/
def feed (s : PackageScan) (files : List TaggedFile) : PackageScan :=
  files.foldl (fun s file => (s.scanFile file).1) s

/-- The commands of a finished scan are in order, and commands of one command name are a type and a
function of one identifier. They are all distinct exactly if no promoted type has the identifier of a
promoted function. -/
theorem finish_distinct_iff {s : PackageScan} {m : PackageModel} (h : s.finish = .ok m) :
    (m.commands.Pairwise fun a b => a.name ≤ b.name) ∧
    (m.commands.Pairwise fun a b => a.commandName = b.commandName → a.name = b.name ∧ a.kind ≠ b.kind) ∧
    (m.Distinct ↔ ∀ name, ¬ (s.PromotesType name ∧ s.PromotesFunction name)) := by
  obtain ⟨-, hSame, rfl⟩ := (finish_eq_ok_iff s m).mp h
  refine ⟨s.le_of_sorted, shared_name hSame, ?_⟩
  rw [← names_distinct_iff]
  exact ⟨fun hDistinct => hDistinct.ascending.imp fun hab => hab.ne, distinct_of_names hSame⟩

/-- A package with a runnable type and a function of one identifier, which no compiler accepts. -/
def oneIdentifier : PackageScan :=
  (new "ops".toList).feed
    [⟨"ops/a.go".toList, "package ops\n\ntype Build struct{}\n\nfunc (Build) Run() {}\n".toList⟩,
      ⟨"ops/b.go".toList, "package ops\n\nfunc Build() {}\n".toList⟩]

theorem oneIdentifier_eq : oneIdentifier =
    { new "ops".toList with
      packageName := some "ops".toList
      candidates := [.type "Build".toList "ops/a.go".toList false,
        .function "Build".toList "ops/b.go".toList [] ⟨false, false⟩]
      runMethods := [("Build".toList, ⟨false, false⟩)] } := by
  decide +kernel

theorem finish_oneIdentifier : oneIdentifier.finish = .ok oneIdentifier.model := by
  refine (finish_eq_ok_iff _ _).mpr ⟨?_, ?_, rfl⟩ <;> rw [oneIdentifier_eq]
  · rfl
  · rw [SameIdentifier]
    decide

/-- The assembly accepts a type and a function that answer to one name. -/
theorem oneIdentifier_not_distinct : ∃ m, oneIdentifier.finish = .ok m ∧ ¬ m.Distinct := by
  refine ⟨oneIdentifier.model, finish_oneIdentifier, fun hDistinct => ?_⟩
  have hNames := (names_distinct_iff oneIdentifier).mp (hDistinct.ascending.imp fun hab => hab.ne)
  rw [oneIdentifier_eq] at hNames
  refine hNames "Build".toList ⟨⟨_, _, .head _, by decide⟩, ⟨_, _, _, .tail _ (.head _)⟩, by decide, ?_⟩
  rw [← mem_names_types]
  decide

theorem finish_distinct_oneIdentifier :
    oneIdentifier.finish = .ok oneIdentifier.model ∧
      (oneIdentifier.model.Distinct ↔
        ∀ name, ¬ (oneIdentifier.PromotesType name ∧ oneIdentifier.PromotesFunction name)) :=
  ⟨finish_oneIdentifier, (finish_distinct_iff finish_oneIdentifier).2.2⟩

end PackageScan

end GoCommands
