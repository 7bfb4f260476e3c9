import GoCommands.Proofs.Package.Feeding
import GoCommands.Proofs.Text.Lookup
import Mathlib.Data.List.Induction

/-! # Descriptions of type commands

The assembly takes the description of a type away when it promotes a declaration of the type. Where a second
declaration of the type is promoted, that one stands for the command and finds no description left.
-/

namespace GoCommands

theorem CommandInfo.Ascending.mem_insert {c d : CommandInfo} {ds : List CommandInfo} (h : Ascending ds)
    (hMem : d ∈ c.insert ds) : d = c ∨ (d ∈ ds ∧ d.name ≠ c.name) := by
  induction ds with
  | nil => exact .inl (List.mem_singleton.mp hMem)
  | cons e es ih =>
    obtain ⟨hHead, hTail⟩ := List.pairwise_cons.mp h
    rw [CommandInfo.insert] at hMem
    split at hMem
    · rename_i hLess
      rcases List.mem_cons.mp hMem with rfl | hMem
      · exact .inl rfl
      · refine .inr ⟨hMem, ?_⟩
        rcases List.mem_cons.mp hMem with rfl | hMem
        · exact hLess.ne'
        · exact (hLess.trans (hHead d hMem)).ne'
    · split at hMem
      · rename_i hEq
        rcases List.mem_cons.mp hMem with rfl | hMem
        · exact .inl rfl
        · rw [beq_iff_eq.mp hEq]
          exact .inr ⟨List.mem_cons_of_mem e hMem, (hHead d hMem).ne'⟩
      · rename_i hNe
        rcases List.mem_cons.mp hMem with rfl | hMem
        · exact .inr ⟨List.mem_cons_self, fun hEq => hNe (beq_iff_eq.mpr hEq.symm)⟩
        · exact (ih hTail hMem).imp_right fun hOld => ⟨List.mem_cons_of_mem e hOld.1, hOld.2⟩

/-- The texts of the constant `Description` methods that a new scan records when it is fed these files, by receiver
and in the order in which they are scanned. -/
def TaggedFile.descriptions (files : List TaggedFile) : List (Text × Text) :=
  (scanned files).flatMap fun unit => unit.reached.flatMap fun item => item.description?.toList

/-- The text of the method scanned last for a type; nothing without one. -/
def TaggedFile.descriptionOf (files : List TaggedFile) (name : Text) : Text :=
  ((((descriptions files).filter fun entry => entry.1 == name).getLast?).map Prod.snd).getD []

namespace PackageScan

/-- The candidate is a declaration of the struct type with this name, and it is promoted. -/
def promotes (s : PackageScan) (name : Text) : Candidate → Bool
  | .type n _ hasSubcommands => n == name && s.keepsType name hasSubcommands
  | .function .. => false

/-- How many declarations of a struct type are promoted. -/
def promotions (s : PackageScan) (name : Text) : Nat := s.candidates.countP (s.promotes name)

/-- What the description of a type is once these candidates have been promoted. -/
def descriptionAfter (s : PackageScan) (cs : List Candidate) (name : Text) : Text :=
  if cs.countP (s.promotes name) = 1 then (s.descriptions.lookup name).getD [] else []

/-- The first promoted declaration of a type has taken the description, and each later one an empty text. -/
structure Promotion.Described (s : PackageScan) (cs : List Candidate) (p : Promotion) : Prop where
  left : ∀ name, p.descriptions.lookup name =
    if cs.countP (s.promotes name) = 0 then s.descriptions.lookup name else none
  taken : ∀ c ∈ p.types, c.description = s.descriptionAfter cs c.name

theorem countP_promotes_concat (s : PackageScan) (cs : List Candidate) (c : Candidate) (name : Text) :
    (cs ++ [c]).countP (s.promotes name) = cs.countP (s.promotes name) + if s.promotes name c then 1 else 0 := by
  rw [List.countP_append, List.countP_singleton]

/-- A candidate that is promoted for no name changes nothing. -/
theorem Promotion.Described.skip {s : PackageScan} {cs : List Candidate} {p : Promotion} (h : p.Described s cs)
    {c : Candidate} (hc : ∀ name, s.promotes name c = false) : p.Described s (cs ++ [c]) where
  left name := by rw [countP_promotes_concat, hc, h.left]; rfl
  taken d hd := by rw [descriptionAfter, countP_promotes_concat, hc, h.taken d hd]; rfl

theorem Promotion.Described.promote {s : PackageScan} {cs : List Candidate} {p : Promotion} (hOrdered : p.Ordered)
    (h : p.Described s cs) (c : Candidate) : (s.promote p c).Described s (cs ++ [c]) := by
  cases c with
  | function name file description invocation =>
    have hSkip : p.Described s (cs ++ [.function name file description invocation]) := h.skip fun _ => rfl
    rw [promote_function]
    split
    · exact hSkip
    · exact ⟨hSkip.left, hSkip.taken⟩
  | type name file hasSubcommands =>
    rw [promote_type]
    split
    · rename_i hKeeps
      have hOwn : s.promotes name (.type name file hasSubcommands) = true := by simp [promotes, hKeeps]
      have hOther : ∀ {other : Text}, other ≠ name → s.promotes other (.type name file hasSubcommands) = false := by
        intro other hNe
        simp [promotes, hNe.symm]
      constructor
      · intro other
        rw [countP_promotes_concat]
        rcases eq_or_ne other name with rfl | hNe
        · simp [hOwn, lookup_filter_self]
        · simp [hOther hNe, lookup_filter_ne _ hNe, h.left]
      · intro d hd
        rw [descriptionAfter, countP_promotes_concat]
        rcases hOrdered.types.mem_insert hd with rfl | ⟨hd, hNe⟩
        · -- The description is still there exactly if no declaration of the type came before.
          by_cases hFirst : cs.countP (s.promotes name) = 0 <;> simp [hOwn, h.left, hFirst]
        · simp [hOther hNe, h.taken d hd, descriptionAfter]
    · rename_i hDrops
      refine h.skip fun other => ?_
      rcases eq_or_ne name other with rfl | hNe
      · simpa [promotes] using hDrops
      · simp [promotes, hNe]

theorem promoted_described (s : PackageScan) : s.promoted.Described s s.candidates := by
  rw [promoted]
  induction s.candidates using List.reverseRecOn with
  | nil => exact ⟨fun name => rfl, by simp⟩
  | append_singleton cs c ih =>
    rw [List.foldl_append]
    exact ih.promote ((Promotion.ordered_start s.descriptions).foldl cs) c

theorem promotes_iff (s : PackageScan) (name : Text) (c : Candidate) :
    s.promotes name c ↔
      ∃ file hasSubcommands, c = .type name file hasSubcommands ∧ s.keepsType name hasSubcommands := by
  cases c with
  | function n f d i => simp [promotes]
  | type n f b =>
    rw [promotes, Bool.and_eq_true, beq_iff_eq]
    constructor
    · rintro ⟨rfl, hKeeps⟩
      exact ⟨f, b, rfl, hKeeps⟩
    · rintro ⟨file, hasSubcommands, hEq, hKeeps⟩
      obtain ⟨rfl, -, rfl⟩ := Candidate.type.inj hEq
      exact ⟨rfl, hKeeps⟩

theorem promotions_pos_iff (s : PackageScan) (name : Text) : 0 < s.promotions name ↔ s.PromotesType name := by
  rw [promotions, List.countP_pos_iff, PromotesType]
  constructor
  · rintro ⟨c, hc, hPromotes⟩
    obtain ⟨file, hasSubcommands, rfl, hKeeps⟩ := (promotes_iff s name c).mp hPromotes
    exact ⟨file, hasSubcommands, hc, hKeeps⟩
  · rintro ⟨file, hasSubcommands, hc, hKeeps⟩
    exact ⟨_, hc, (promotes_iff s name _).mpr ⟨file, hasSubcommands, rfl, hKeeps⟩⟩

theorem lookup_descriptions_feed (dir : Path) (files : List TaggedFile) (name : Text) :
    (((new dir).feed files).descriptions.lookup name).getD [] = TaggedFile.descriptionOf files name := by
  rw [descriptions_feed, lookup_reverse]
  rfl

/-- A type command has the description of its type if one declaration of it is promoted, and an empty one else. So
the descriptions are kept exactly where no type with a description is promoted twice. -/
theorem finish_described_iff {dir : Path} {files : List TaggedFile} {m : PackageModel}
    (h : ((new dir).feed files).finish = .ok m) :
    (∀ c ∈ m.commands, c.kind = .type → c.description =
      if ((new dir).feed files).promotions c.name = 1 then TaggedFile.descriptionOf files c.name else []) ∧
    ((∀ c ∈ m.commands, c.kind = .type → c.description = TaggedFile.descriptionOf files c.name) ↔
      ∀ name, 1 < ((new dir).feed files).promotions name → TaggedFile.descriptionOf files name = []) := by
  obtain ⟨-, -, rfl⟩ := (finish_eq_ok_iff _ m).mp h
  have hTaken : ∀ c ∈ ((new dir).feed files).promoted.types, c.description =
      if ((new dir).feed files).promotions c.name = 1 then TaggedFile.descriptionOf files c.name else [] := by
    intro c hc
    rw [(promoted_described _).taken c hc, descriptionAfter, lookup_descriptions_feed]
    rfl
  refine ⟨fun c hc hKind => hTaken c ((mem_types_iff _ c).mpr ⟨hc, hKind⟩), ?_, ?_⟩
  · intro hKept name hTwice
    have hPromoted := (promotions_pos_iff _ name).mp (Nat.zero_lt_of_lt hTwice)
    have hType := (mem_names_types _ name).mpr hPromoted
    obtain ⟨c, hc, rfl⟩ := List.mem_map.mp hType
    obtain ⟨hCommand, hKind⟩ := (mem_types_iff _ c).mp hc
    rw [← hKept c hCommand hKind, hTaken c hc, if_neg (by omega)]
  · intro hOnce c hc hKind
    have hType := (mem_types_iff _ c).mpr ⟨hc, hKind⟩
    have hPos := (promotions_pos_iff _ c.name).mpr ((mem_names_types _ c.name).mp (List.mem_map_of_mem hType))
    rw [hTaken c hType]
    split
    · rfl
    · exact (hOnce c.name (by omega)).symm

/-- A type that can be run and has a description, and its second declaration, which no compiler accepts. -/
def repeatedFiles : List TaggedFile :=
  [⟨"ops/a.go".toList, ("package ops\n\ntype Build struct\x7b\x7d\n\nfunc (Build) Run() \x7b\x7d\n\n" ++
      "func (Build) Description() string \x7b return \"Compiles.\" \x7d\n").toList⟩,
    ⟨"ops/b.go".toList, "package ops\n\ntype Build struct\x7b\x7d\n".toList⟩]

def repeatedType : PackageScan := (new "ops".toList).feed repeatedFiles

theorem repeatedType_eq : repeatedType =
    { new "ops".toList with
      packageName := some "ops".toList
      candidates := [.type "Build".toList "ops/a.go".toList false, .type "Build".toList "ops/b.go".toList false]
      runMethods := [("Build".toList, ⟨false, false⟩)]
      descriptions := [("Build".toList, "Compiles.".toList)] } := by
  decide +kernel

theorem descriptionOf_repeatedFiles :
    TaggedFile.descriptionOf repeatedFiles "Build".toList = "Compiles.".toList := by
  decide +kernel

theorem finish_repeatedType : repeatedType.finish = .ok repeatedType.model := by
  refine (finish_eq_ok_iff _ _).mpr ⟨?_, ?_, rfl⟩ <;> rw [repeatedType_eq]
  · rfl
  · rw [SameIdentifier]
    decide

/-- The assembly loses the description of a type that is declared twice. -/
theorem exists_undescribed : ∃ m, repeatedType.finish = .ok m ∧
    ¬ ∀ c ∈ m.commands, c.kind = .type → c.description = TaggedFile.descriptionOf repeatedFiles c.name := by
  refine ⟨repeatedType.model, finish_repeatedType, fun hKept => ?_⟩
  have hBuild : ⟨"Build".toList, .type, "ops/b.go".toList, [], ⟨false, false⟩⟩ ∈ repeatedType.promoted.types := by
    rw [repeatedType_eq]
    decide
  have hLost := hKept _ ((mem_types_iff _ _).mp hBuild).1 rfl
  rw [descriptionOf_repeatedFiles] at hLost
  cases hLost

theorem promotions_repeatedType : repeatedType.promotions "Build".toList = 2 := by
  rw [repeatedType_eq]
  decide

/-- The second declaration of the type stands for the command, and its description is empty. -/
theorem finish_described_repeatedType : repeatedType.finish = .ok repeatedType.model ∧
    (∀ c ∈ repeatedType.model.commands, c.kind = .type → c.name = "Build".toList → c.description = []) ∧
    ((∀ c ∈ repeatedType.model.commands, c.kind = .type →
        c.description = TaggedFile.descriptionOf repeatedFiles c.name) ↔
      ∀ name, 1 < repeatedType.promotions name → TaggedFile.descriptionOf repeatedFiles name = []) := by
  obtain ⟨hTaken, hKept⟩ := finish_described_iff finish_repeatedType
  refine ⟨finish_repeatedType, fun c hc hKind hName => ?_, hKept⟩
  have hTwice : repeatedType.promotions c.name = 2 := by rw [hName, promotions_repeatedType]
  rw [hTaken c hc hKind]
  exact if_neg (by rw [← repeatedType, hTwice]; decide)

end PackageScan

end GoCommands
