import GoCommands.Proofs.Go.Declared
import GoCommands.Proofs.Go.Words

/-! # Names of declarations

The names of the types and functions that a file declares at the top level are words. Types are declared by one reader
only, since what is nested in a statement does not show at the top level.
-/

namespace GoCommands.Go

open Reader

/-- The types that a declaration declares have their names among the lexemes. -/
def NamesTypes (input : Input) (specs : List TypeSpec) : Prop :=
  ∀ spec ∈ specs, ∃ l ∈ input, l.token = .word spec.name

theorem NamesTypes.mono {input input' : Input} {specs : List TypeSpec} (h : NamesTypes input specs)
    (hInput : input <:+ input') : NamesTypes input' specs := by
  intro spec hSpec
  obtain ⟨l, hl, hToken⟩ := h spec hSpec
  exact ⟨l, hInput.subset hl, hToken⟩

def Declaration.typeSpecs : Declaration → List TypeSpec
  | .types specs => specs
  | _ => []

namespace Grammar

variable {g : Grammar} {input rest : Input} {specs : List TypeSpec}

theorem exists_of_typeSpec {spec : TypeSpec} (h : g.typeSpec input = some (spec, rest)) :
    ∃ l ∈ input, l.token = .word spec.name := by
  simp only [typeSpec, typeSpec.aliased, typeSpec.defined, Option.bind_eq_bind, Option.bind_eq_some_iff] at h
  obtain ⟨⟨name, behind⟩, hWord, h⟩ := h
  have hName : spec.name = name := by grind [Option.bind_eq_some_iff]
  rw [hName]
  exact exists_of_word hWord

theorem namesTypes_of_terminated (hG : g.Forward) {fuel : Nat}
    (h : terminated g.typeSpec false .parenClose fuel input = some (specs, rest)) : NamesTypes input specs := by
  induction fuel generalizing input specs with
  | zero => cases h
  | succ fuel ih =>
    rw [terminated] at h
    split at h
    · cases h
      exact List.forall_mem_nil _
    · simp only [Option.bind_eq_bind, Option.bind_eq_some_iff] at h
      obtain ⟨⟨first, behind⟩, hFirst, h⟩ := h
      have hOne := exists_of_typeSpec hFirst
      split at h
      · cases h
        exact List.forall_mem_singleton.mpr hOne
      · simp only [Option.bind_eq_some_iff] at h
        obtain ⟨next, hNext, ⟨more, last⟩, hMore, h⟩ := h
        cases h
        have hSuffix := (terminator_suffix hNext).trans (typeSpec_forward hG hFirst)
        exact List.forall_mem_cons.mpr ⟨hOne, (ih hMore).mono hSuffix⟩

theorem namesTypes_of_typeSpecs (hG : g.Forward) (h : g.typeSpecs input = some (specs, rest)) :
    NamesTypes input specs := by
  rw [typeSpecs] at h
  split at h
  · rename_i inside hOpen
    exact (namesTypes_of_terminated hG h).mono (symbol_suffix hOpen)
  · simp only [Option.bind_eq_bind, Option.bind_eq_some_iff] at h
    obtain ⟨⟨spec, behind⟩, hSpec, h⟩ := h
    cases h
    exact List.forall_mem_singleton.mpr (exists_of_typeSpec hSpec)

theorem namesTypes_of_keywordStatement (hG : g.Forward) {k : Keyword} {last : Bool}
    (h : g.keywordStatement k input = some ((.types specs, last), rest)) : NamesTypes input specs := by
  unfold keywordStatement at h
  split at h
  case h_3 =>
    simp only [Option.bind_eq_bind, Option.bind_eq_some_iff] at h
    obtain ⟨⟨list, behind⟩, hSpecs, h⟩ := h
    cases h
    exact namesTypes_of_typeSpecs hG hSpecs
  case h_11 | h_12 | h_13 | h_15 => cases h
  all_goals
    simp only [Option.bind_eq_bind, Option.bind_eq_some_iff] at h
    grind

theorem ne_types_of_simpleStatement {last : Bool} : g.simpleStatement input ≠ some ((.types specs, last), rest) := by
  intro h
  simp only [simpleStatement, Option.bind_eq_bind, Option.bind_eq_some_iff] at h
  obtain ⟨_, -, h⟩ := h
  cases h

theorem namesTypes_of_statementStep (hG : g.Forward) {last : Bool}
    (h : g.statementStep input = some ((.types specs, last), rest)) : NamesTypes input specs := by
  unfold statementStep at h
  split at h
  · cases h
  · rename_i l tail
    split at h
    case h_1 => cases h
    case h_2 =>
      simp only [Option.bind_eq_bind, Option.bind_eq_some_iff] at h
      obtain ⟨_, -, h⟩ := h
      cases h
    case h_3 =>
      split at h
      · simp only [Option.bind_eq_bind, Option.bind_eq_some_iff] at h
        obtain ⟨_, -, _, -, h⟩ := h
        cases h
      · exact absurd h ne_types_of_simpleStatement
    case h_4 =>
      rcases Option.or_eq_some_iff.mp h with hKeyword | ⟨-, hSimple⟩
      · exact (namesTypes_of_keywordStatement hG hKeyword).mono (List.suffix_cons l tail)
      · exact absurd hSimple ne_types_of_simpleStatement
    case h_5 => exact absurd h ne_types_of_simpleStatement

theorem namesTypes_of_statement (depth : Nat) {last : Bool}
    (h : (ofDepth depth).statement input = some ((.types specs, last), rest)) : NamesTypes input specs := by
  cases depth with
  | zero => cases h
  | succ depth => exact namesTypes_of_statementStep (ofDepth_forward depth) h

theorem namesTypes_of_item (depth : Nat) {declaration : Declaration} {last : Bool}
    (h : (ofDepth depth).item input = some ((declaration, last), rest)) :
    NamesTypes input declaration.typeSpecs := by
  cases itemAt_of_item h with
  | package hWord => exact List.forall_mem_nil _
  | imports hSpecs => exact List.forall_mem_nil _
  | function hFunction =>
    obtain ⟨f, rfl, -⟩ := exists_eq_function hFunction
    exact List.forall_mem_nil _
  | method hMethod =>
    obtain ⟨m, rfl⟩ := exists_eq_method hMethod
    exact List.forall_mem_nil _
  | statement hStatement =>
    simp only [item.statement, Option.bind_eq_bind, Option.bind_eq_some_iff] at hStatement
    obtain ⟨⟨⟨statement, unended⟩, behind⟩, hRead, hStatement⟩ := hStatement
    split at hStatement
    · rename_i hTypes
      cases hTypes
      cases hStatement
      exact namesTypes_of_statement depth hRead
    · cases hStatement
      exact List.forall_mem_nil _

end Grammar

namespace SourceFile

theorem isWord_of_mem_typeSpecs {source : Text} {unit : SourceFile} (h : parse source = some unit) {spec : TypeSpec}
    (hSpec : spec ∈ unit.typeSpecs) : IsWord spec.name := by
  obtain ⟨ls, hLexemes, hUnit⟩ := Option.bind_eq_some_iff.mp h
  obtain ⟨items, hItems, rfl⟩ := Option.map_eq_some_iff.mp hUnit
  obtain ⟨item, hItem, hSpec⟩ := List.mem_flatMap.mp hSpec
  have hNames := Grammar.itemsOf_forall (Grammar.ofDepth_forward _)
    (Q := fun input declaration => NamesTypes input declaration.typeSpecs) (Grammar.namesTypes_of_item _)
    NamesTypes.mono hItems item hItem
  obtain ⟨l, hl, hToken⟩ := hNames spec hSpec
  exact Lexer.isWord_of_mem_lexemesWithin hLexemes hl hToken

theorem isWord_of_function? {source : Text} {unit : SourceFile} (h : parse source = some unit) {item : Item}
    (hItem : item ∈ unit.items) {f : FunctionDecl} (hFunction : item.function? = some f) : IsWord f.name := by
  refine isWord_of_parse h hItem ?_
  rw [Item.function?_eq_some_iff.mp hFunction, Declaration.word?]

end SourceFile

end GoCommands.Go
