import Mathlib.Data.Char
import Mathlib.Data.List.Lex
import GoCommands.Package.Assembly
import GoCommands.Proofs.Fold

/-! # Which candidates are promoted

A candidate is kept or left out by the links and the `Run` methods of the whole scan, never by the
candidates around it. The order of the candidates only decides which of several declarations of one
identifier the command describes.
-/

namespace GoCommands

namespace CommandInfo

/-- The commands stand in the strict order of their identifiers. -/
def Ascending (commands : List CommandInfo) : Prop := commands.Pairwise fun a b => a.name < b.name

theorem mem_of_mem_insert {c d : CommandInfo} {ds : List CommandInfo} (h : d ∈ c.insert ds) :
    d = c ∨ d ∈ ds := by
  induction ds with
  | nil => simpa [insert] using h
  | cons e es ih =>
    rw [insert] at h
    split at h
    · simpa using h
    · split at h
      · rcases List.mem_cons.mp h with rfl | h
        · exact .inl rfl
        · exact .inr (List.mem_cons_of_mem _ h)
      · rcases List.mem_cons.mp h with rfl | h
        · exact .inr List.mem_cons_self
        · exact (ih h).imp_right (List.mem_cons_of_mem _)

/-- Only the identifiers matter for the place of a command, so a replaced command leaves its own. -/
theorem mem_names_insert (c : CommandInfo) (ds : List CommandInfo) (name : Text) :
    name ∈ (c.insert ds).map CommandInfo.name ↔ name = c.name ∨ name ∈ ds.map CommandInfo.name := by
  induction ds with
  | nil => simp [insert]
  | cons d ds ih =>
    rw [insert]
    split
    · simp
    · split
      · rename_i hEq
        simp [beq_iff_eq.mp hEq]
      · rw [List.map_cons, List.mem_cons, ih, List.map_cons, List.mem_cons]
        exact or_left_comm

theorem Ascending.insert (c : CommandInfo) {ds : List CommandInfo} (h : Ascending ds) :
    Ascending (c.insert ds) := by
  induction ds with
  | nil => simp [CommandInfo.insert, Ascending]
  | cons d ds ih =>
    obtain ⟨hHead, hTail⟩ := List.pairwise_cons.mp h
    rw [CommandInfo.insert]
    split
    · rename_i hLess
      refine List.pairwise_cons.mpr ⟨fun e he => ?_, h⟩
      rcases List.mem_cons.mp he with rfl | he
      · exact hLess
      · exact hLess.trans (hHead e he)
    · rename_i hNotLess
      split
      · rename_i hEq
        rw [beq_iff_eq] at hEq
        exact List.pairwise_cons.mpr ⟨fun e he => hEq ▸ hHead e he, hTail⟩
      · rename_i hNe
        refine List.pairwise_cons.mpr ⟨fun e he => ?_, ih hTail⟩
        rcases mem_of_mem_insert he with rfl | he
        · exact lt_of_le_of_ne (not_lt.mp hNotLess) fun hEq => hNe (beq_iff_eq.mpr hEq.symm)
        · exact hHead e he

end CommandInfo

namespace PackageScan

/-- A struct type with this name is promoted, given whether a declaration of it has subcommands. -/
def keepsType (s : PackageScan) (name : Text) (hasSubcommands : Bool) : Bool :=
  !s.isLinkedType name && ((s.runMethod name).isSome || hasSubcommands)

/-- A scanned struct type with this name becomes a command. -/
def PromotesType (s : PackageScan) (name : Text) : Prop :=
  ∃ file hasSubcommands, .type name file hasSubcommands ∈ s.candidates ∧ s.keepsType name hasSubcommands

/-- A scanned function with this name becomes a command: no link has its command name, and no
promoted type wraps it. -/
def PromotesFunction (s : PackageScan) (name : Text) : Prop :=
  (∃ file description invocation, .function name file description invocation ∈ s.candidates) ∧
    ¬ s.isLinkedName (CommandName.ofIdentifier name) ∧ ¬ s.PromotesType (name ++ wrapperSuffix)

theorem promote_type (s : PackageScan) (p : Promotion) (name : Text) (file : Path) (hasSubcommands : Bool) :
    s.promote p (.type name file hasSubcommands) =
      if s.keepsType name hasSubcommands then
        { p with
          types := CommandInfo.insert
            { name, kind := .type, file
              description := (p.descriptions.lookup name).getD []
              invocation := (s.runMethod name).getD ⟨false, false⟩ } p.types
          descriptions := p.descriptions.filter fun d => d.1 != name }
      else p := by
  rw [promote, keepsType]
  cases s.isLinkedType name <;> cases s.runMethod name <;> cases hasSubcommands <;> rfl

theorem promote_function (s : PackageScan) (p : Promotion) (name : Text) (file : Path) (description : Text)
    (invocation : Go.Invocation) :
    s.promote p (.function name file description invocation) =
      if s.isLinkedName (CommandName.ofIdentifier name) then p
      else { p with functions :=
        CommandInfo.insert { name, kind := .function, file, description, invocation } p.functions } := rfl

/-- Types and functions are kept apart, each in the strict order of their identifiers. -/
structure Promotion.Ordered (p : Promotion) : Prop where
  types : CommandInfo.Ascending p.types
  functions : CommandInfo.Ascending p.functions
  typeKind : ∀ c ∈ p.types, c.kind = .type
  functionKind : ∀ c ∈ p.functions, c.kind = .function

theorem Promotion.Ordered.promote {s : PackageScan} {p : Promotion} (h : p.Ordered) (c : Candidate) :
    (s.promote p c).Ordered := by
  cases c with
  | type name file hasSubcommands =>
    rw [promote_type]
    split
    · refine ⟨h.types.insert _, h.functions, fun c hc => ?_, h.functionKind⟩
      rcases CommandInfo.mem_of_mem_insert hc with rfl | hc
      · rfl
      · exact h.typeKind c hc
    · exact h
  | function name file description invocation =>
    rw [promote_function]
    split
    · exact h
    · refine ⟨h.types, h.functions.insert _, h.typeKind, fun c hc => ?_⟩
      rcases CommandInfo.mem_of_mem_insert hc with rfl | hc
      · rfl
      · exact h.functionKind c hc

theorem Promotion.Ordered.foldl {s : PackageScan} {p : Promotion} (h : p.Ordered) (cs : List Candidate) :
    (cs.foldl s.promote p).Ordered := by
  induction cs generalizing p with
  | nil => exact h
  | cons c cs ih => exact ih (h.promote c)

theorem Promotion.ordered_start (descriptions : List (Text × Text)) : Promotion.Ordered ⟨[], [], descriptions⟩ where
  types := List.Pairwise.nil
  functions := List.Pairwise.nil
  typeKind := by simp
  functionKind := by simp

theorem promoted_ordered (s : PackageScan) : s.promoted.Ordered :=
  (Promotion.ordered_start s.descriptions).foldl s.candidates

/-- A step adds the identifier of its candidate or nothing. -/
theorem mem_types_promote (s : PackageScan) (p : Promotion) (name : Text) (c : Candidate) :
    name ∈ (s.promote p c).types.map CommandInfo.name ↔
      name ∈ p.types.map CommandInfo.name ∨
      ∃ file hasSubcommands, c = .type name file hasSubcommands ∧ s.keepsType name hasSubcommands := by
  cases c with
  | type n f b =>
    rw [promote_type]
    split
    · rename_i hKeeps
      rw [CommandInfo.mem_names_insert, or_comm]
      refine or_congr_right ⟨?_, ?_⟩
      · rintro rfl
        exact ⟨f, b, rfl, hKeeps⟩
      · rintro ⟨file, sub, hEq, -⟩
        exact (Candidate.type.inj hEq).1.symm
    · rename_i hDrops
      refine (or_iff_left ?_).symm
      rintro ⟨file, sub, hEq, hKeep⟩
      obtain ⟨rfl, -, rfl⟩ := Candidate.type.inj hEq
      exact hDrops hKeep
  | function n f d i =>
    rw [promote_function]
    split <;> simp

theorem mem_functions_promote (s : PackageScan) (p : Promotion) (name : Text) (c : Candidate) :
    name ∈ (s.promote p c).functions.map CommandInfo.name ↔
      name ∈ p.functions.map CommandInfo.name ∨
      (∃ file description invocation, c = .function name file description invocation) ∧
        ¬ s.isLinkedName (CommandName.ofIdentifier name) := by
  cases c with
  | type n f b =>
    rw [promote_type]
    split <;> simp
  | function n f d i =>
    rw [promote_function]
    split
    · rename_i hLinked
      refine (or_iff_left ?_).symm
      rintro ⟨⟨file, description, invocation, hEq⟩, hFree⟩
      rw [(Candidate.function.inj hEq).1] at hLinked
      exact hFree hLinked
    · rename_i hFree
      rw [CommandInfo.mem_names_insert, or_comm]
      refine or_congr_right ⟨?_, ?_⟩
      · rintro rfl
        exact ⟨⟨f, d, i, rfl⟩, hFree⟩
      · rintro ⟨⟨file, description, invocation, hEq⟩, -⟩
        exact (Candidate.function.inj hEq).1.symm

theorem mem_types_foldl (s : PackageScan) (cs : List Candidate) (p : Promotion) (name : Text) :
    name ∈ (cs.foldl s.promote p).types.map CommandInfo.name ↔
      name ∈ p.types.map CommandInfo.name ∨
      ∃ file hasSubcommands, .type name file hasSubcommands ∈ cs ∧ s.keepsType name hasSubcommands := by
  rw [foldl_iff (P := fun p => name ∈ p.types.map CommandInfo.name)
    (fun p c => mem_types_promote s p name c)]
  refine or_congr_right ⟨?_, ?_⟩
  · rintro ⟨_, hMem, file, hasSubcommands, rfl, hKeeps⟩
    exact ⟨file, hasSubcommands, hMem, hKeeps⟩
  · rintro ⟨file, hasSubcommands, hMem, hKeeps⟩
    exact ⟨_, hMem, file, hasSubcommands, rfl, hKeeps⟩

theorem mem_functions_foldl (s : PackageScan) (cs : List Candidate) (p : Promotion) (name : Text) :
    name ∈ (cs.foldl s.promote p).functions.map CommandInfo.name ↔
      name ∈ p.functions.map CommandInfo.name ∨
      (∃ file description invocation, .function name file description invocation ∈ cs) ∧
        ¬ s.isLinkedName (CommandName.ofIdentifier name) := by
  rw [foldl_iff (P := fun p => name ∈ p.functions.map CommandInfo.name)
    (fun p c => mem_functions_promote s p name c)]
  refine or_congr_right ⟨?_, ?_⟩
  · rintro ⟨_, hMem, ⟨file, description, invocation, rfl⟩, hFree⟩
    exact ⟨⟨file, description, invocation, hMem⟩, hFree⟩
  · rintro ⟨⟨file, description, invocation, hMem⟩, hFree⟩
    exact ⟨_, hMem, ⟨file, description, invocation, rfl⟩, hFree⟩

theorem mem_names_types (s : PackageScan) (name : Text) :
    name ∈ s.promoted.types.map CommandInfo.name ↔ s.PromotesType name := by
  rw [promoted, mem_types_foldl, PromotesType]
  simp only [List.map_nil, List.not_mem_nil, false_or]

/-- A function command is what one of the scanned declarations of the function says. -/
theorem candidate_of_mem_functions {s : PackageScan} {cs : List Candidate} {p : Promotion} {c : CommandInfo}
    (h : c ∈ (cs.foldl s.promote p).functions) :
    c ∈ p.functions ∨ .function c.name c.file c.description c.invocation ∈ cs := by
  induction cs generalizing p with
  | nil => exact .inl h
  | cons d cs ih =>
    rcases ih h with h | h
    · cases d with
      | type n f b =>
        rw [promote_type] at h
        split at h <;> exact .inl h
      | function n f t i =>
        rw [promote_function] at h
        split at h
        · exact .inl h
        · rcases CommandInfo.mem_of_mem_insert h with rfl | h
          · exact .inr List.mem_cons_self
          · exact .inl h
    · exact .inr (List.mem_cons_of_mem _ h)

/-- The functions that no promoted type wraps. -/
def unwrapped (s : PackageScan) : List CommandInfo :=
  s.promoted.functions.filter fun f => !isWrapped s.promoted.types f

theorem isWrapped_iff (s : PackageScan) (f : CommandInfo) :
    isWrapped s.promoted.types f ↔ s.PromotesType (f.name ++ wrapperSuffix) := by
  rw [← mem_names_types]
  simp [isWrapped]

theorem mem_names_unwrapped (s : PackageScan) (name : Text) :
    name ∈ s.unwrapped.map CommandInfo.name ↔ s.PromotesFunction name := by
  have hNames := mem_functions_foldl s s.candidates ⟨[], [], s.descriptions⟩ name
  simp only [List.map_nil, List.not_mem_nil, false_or] at hNames
  constructor
  · intro h
    obtain ⟨f, hf, rfl⟩ := List.mem_map.mp h
    obtain ⟨hf, hFree⟩ := List.mem_filter.mp hf
    obtain ⟨hDeclared, hUnlinked⟩ := hNames.mp (List.mem_map_of_mem hf)
    refine ⟨hDeclared, hUnlinked, fun hType => ?_⟩
    simp [(isWrapped_iff s f).mpr hType] at hFree
  · rintro ⟨hDeclared, hUnlinked, hFree⟩
    obtain ⟨f, hf, rfl⟩ := List.mem_map.mp (hNames.mpr ⟨hDeclared, hUnlinked⟩)
    refine List.mem_map_of_mem (List.mem_filter.mpr ⟨hf, ?_⟩)
    simpa using mt (isWrapped_iff s f).mp hFree

end PackageScan

end GoCommands
