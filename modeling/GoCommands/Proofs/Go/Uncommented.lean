import GoCommands.Proofs.Go.Invocation
import GoCommands.Proofs.Go.Placement

/-! # Signatures without comments

A comment that stands in the place of a type was read before one of the lexemes of the type, but not before the first.
So no type of a function is hidden if no comment stands inside its lists, and then the slots decide how it is called.
-/

namespace GoCommands.Go

open Reader

/-- A reading from `input` to `rest` takes the lexeme. -/
def Takes (input rest : Input) (l : Lexeme) : Prop := ∃ behind, l :: behind <:+ input ∧ rest <:+ behind

theorem Takes.mono {input input' rest rest' : Input} {l : Lexeme} (h : Takes input rest l) (hInput : input <:+ input')
    (hRest : rest' <:+ rest) : Takes input' rest' l := by
  obtain ⟨behind, hFrom, hTo⟩ := h
  exact ⟨behind, hFrom.trans hInput, hRest.trans hTo⟩

theorem Takes.mem {taken rest : Input} {l : Lexeme} (h : Takes (taken ++ rest) rest l) : l ∈ taken := by
  obtain ⟨_, ⟨front, hFront⟩, ⟨between, rfl⟩⟩ := h
  have hTaken : front ++ l :: between = taken := by
    refine (List.append_left_inj rest).mp ?_
    rw [List.append_assoc, List.cons_append, hFront]
  rw [← hTaken]
  exact List.mem_append_right _ (.head _)

theorem Takes.mem_tail {taken rest : Input} {l : Lexeme} (h : Takes (taken ++ rest).tail rest l) : l ∈ taken.tail := by
  cases taken with
  | nil =>
    obtain ⟨_, hFrom, hTo⟩ := h
    have hLength := hFrom.length_le.trans (List.tail_suffix rest).length_le
    rw [List.length_cons] at hLength
    exact absurd hTo.length_le (Nat.not_le_of_lt hLength)
  | cons first more => exact Takes.mem h

/-- The comment in the place of the type stands before a lexeme of it. -/
def TypeExpr.NotedIn (input rest : Input) (type : TypeExpr) : Prop :=
  ∀ note ∈ type.standIn, ∃ l, Takes input rest l ∧ l.firstComment = some note

namespace TypeExpr

variable {input input' rest rest' : Input} {type : TypeExpr}

theorem NotedIn.mono (h : type.NotedIn input rest) (hInput : input <:+ input') (hRest : rest' <:+ rest) :
    type.NotedIn input' rest' := by
  intro note hNote
  obtain ⟨l, hTakes, hComment⟩ := h note hNote
  exact ⟨l, hTakes.mono hInput hRest, hComment⟩

theorem NotedIn.standIn_eq_none {taken : Input} (h : type.NotedIn (taken ++ rest).tail rest)
    (hPlain : ∀ l ∈ taken.tail, l.firstComment = none) : type.standIn = none := by
  refine Option.eq_none_iff_forall_not_mem.mpr fun note hNote => ?_
  obtain ⟨l, hTakes, hComment⟩ := h note hNote
  rw [hPlain l hTakes.mem_tail] at hComment
  cases hComment

theorem notedIn_of_standIn (h : type.standIn = none) : type.NotedIn input rest := by
  intro note hNote
  rw [h] at hNote
  cases hNote

end TypeExpr

theorem Reader.tail_eq_of_symbol {s : Symbol} {input rest : Input} (h : symbol s input = some rest) :
    input.tail = rest := by
  unfold symbol at h
  grind

namespace Grammar

variable {g : Grammar} {input rest : Input}

theorem typeName_standIn {lineEnds : Bool} {type : TypeExpr} (h : g.typeName lineEnds input = some (type, rest)) :
    type.standIn = .none := by
  simp only [typeName, Option.bind_eq_bind, Option.bind_eq_some_iff] at h
  grind [TypeExpr.standIn]

theorem negatedType_standIn {lineEnds : Bool} {type : TypeExpr}
    (h : g.negatedType lineEnds input = some (type, rest)) : type.standIn = .none := by
  simp only [negatedType, Option.bind_eq_bind, Option.bind_eq_some_iff] at h
  grind [TypeExpr.standIn]

/-- The type that an entry of a parameter list states; a word alone is a name or a type. -/
def Entry.type? : Entry → Option TypeExpr
  | .bare _ => .none
  | .named _ type | .unnamed type | .variadic _ type => some type

/-- The comment behind an opening parenthesis stands before a lexeme that is taken up to the closing one. -/
theorem exists_takes_of_noteOf {behind : Input} {note : Text} (hNote : noteOf input = some note)
    (hBehind : behind <:+ input) (hClose : symbol .parenClose behind = some rest) :
    ∃ l, Takes input rest l ∧ l.firstComment = some note := by
  cases input with
  | nil => cases hNote
  | cons l tail =>
    refine ⟨l, ⟨tail, List.suffix_rfl, ?_⟩, hNote⟩
    rcases List.suffix_cons_iff.mp hBehind with rfl | hTail
    · obtain rfl : tail = rest := tail_eq_of_symbol hClose
      exact List.suffix_rfl
    · exact (symbol_suffix hClose).trans hTail

section

variable (hG : g.Forward)
  (hNoted : ∀ {lineEnds input type rest}, g.type lineEnds input = some (type, rest) → type.NotedIn input.tail rest)
include hNoted

include hG in
theorem typeStep_noted {lineEnds : Bool} {type : TypeExpr} (h : g.typeStep lineEnds input = some (type, rest)) :
    type.NotedIn input.tail rest := by
  unfold typeStep at h
  split at h
  case h_1 => exact TypeExpr.notedIn_of_standIn (typeName_standIn h)
  -- Only a type in parentheses can have a comment in its place.
  case h_3 before inside =>
    simp only [Option.bind_eq_bind, Option.bind_eq_some_iff] at h
    obtain ⟨⟨inner, behind⟩, hInner, close, hClose, h⟩ := h
    cases h
    intro note hNote
    cases hFirst : noteOf inside with
    | some first =>
      rw [hFirst] at hNote
      cases hNote
      exact exists_takes_of_noteOf hFirst (hG.type_suffix hInner) hClose
    | none =>
      rw [hFirst] at hNote
      exact (hNoted hInner).mono (List.tail_suffix _) (symbol_suffix hClose) note hNote
  case h_5 => exact TypeExpr.notedIn_of_standIn (negatedType_standIn h)
  all_goals
    simp only [Option.bind_eq_bind, Option.bind_eq_some_iff] at h
    obtain ⟨_, -, h⟩ := h
    cases h
    exact TypeExpr.notedIn_of_standIn rfl

theorem entry_noted {e : Entry} {type : TypeExpr} (h : g.entry input = some (e, rest)) (hType : e.type? = some type) :
    type.NotedIn input rest := by
  have hBehind : ∀ {before}, before <:+ input → g.type false before = some (type, rest) → type.NotedIn input rest :=
    fun hBefore hRead => (hNoted hRead).mono ((List.tail_suffix _).trans hBefore) List.suffix_rfl
  simp only [entry, entry.unnamed, Option.bind_eq_bind] at h
  grind [Option.bind_eq_some_iff, Entry.type?]

end

end Grammar

namespace Reader

section

variable (Q : Input → Input → α → Prop) {item : Reader α} {input rest : Input} {values : List α} (hItem : Forward item)
  (hSays : ∀ {input value rest}, item input = some (value, rest) → Q input rest value)
  (hMono : ∀ {input input' rest rest' value}, Q input rest value → input <:+ input' → rest' <:+ rest →
    Q input' rest' value)
include hItem hSays hMono

/-- What an item says of the lexemes that it takes, each of the items says of those that all take. -/
theorem items_forall {close : Symbol} {fuel : Nat} (h : items item close fuel input = some (values, rest)) :
    ∀ value ∈ values, Q input rest value := by
  induction fuel generalizing input values with
  | zero => cases h
  | succ fuel ih =>
    rw [items] at h
    simp only [Option.bind_eq_bind, Option.bind_eq_some_iff] at h
    obtain ⟨⟨first, behind⟩, hFirst, h⟩ := h
    have hOne : ∀ {last}, last <:+ behind → Q input last first := hMono (hSays hFirst) List.suffix_rfl
    split at h
    · rename_i hClose
      cases h
      simpa using hOne (symbol_suffix hClose)
    · simp only [Option.bind_eq_some_iff] at h
      obtain ⟨next, hComma, h⟩ := h
      have hNext := symbol_suffix hComma
      split at h
      · rename_i hClose
        cases h
        simpa using hOne ((symbol_suffix hClose).trans hNext)
      · simp only [Option.bind_eq_some_iff] at h
        obtain ⟨⟨more, last⟩, hMore, h⟩ := h
        cases h
        have hLast := items_forward hItem close fuel hMore
        refine List.forall_mem_cons.mpr ⟨hOne (hLast.trans hNext), fun value hMem => ?_⟩
        exact hMono (ih hMore value hMem) (hNext.trans (hItem hFirst)) List.suffix_rfl

theorem bracketed?_forall {opening close : Symbol} {lone : Bool}
    (h : bracketed? item opening close lone input = some (values, rest)) :
    ∀ value ∈ values, Q input.tail rest value := by
  simp only [bracketed?, Option.bind_eq_bind, Option.bind_eq_some_iff] at h
  obtain ⟨inside, hOpen, h⟩ := h
  split at h
  · cases h
    exact List.forall_mem_nil _
  · split at h
    · simp only [Option.bind_eq_some_iff] at h
      obtain ⟨_, -, h⟩ := h
      cases h
      exact List.forall_mem_nil _
    · rw [tail_eq_of_symbol hOpen]
      exact items_forall Q hItem hSays hMono h

end

end Reader

namespace Grammar

variable {g : Grammar} {input rest : Input}

/-- The type of a parameter is that of an entry, or a word alone. -/
theorem type_of_mem_groupEntries {pending : List Text} {entries : List Entry} {p : Parameter}
    (h : p ∈ groupEntries pending entries) : p.type.standIn = .none ∨ ∃ e ∈ entries, e.type? = some p.type := by
  have hWords : ∀ ids, p ∈ unnamedParameters ids → p.type.standIn = .none := by
    intro ids hMem
    obtain ⟨id, -, rfl⟩ := List.mem_map.mp hMem
    rfl
  induction entries generalizing pending with
  | nil => exact .inl (hWords _ h)
  | cons e entries ih =>
    have hLater : ∀ {pending}, p ∈ groupEntries pending entries →
        p.type.standIn = .none ∨ ∃ e' ∈ e :: entries, e'.type? = some p.type := by
      intro pending hMem
      rcases ih hMem with hWord | ⟨e', hEntry, hType⟩
      · exact .inl hWord
      · exact .inr ⟨e', .tail _ hEntry, hType⟩
    cases e with
    | bare id => exact hLater h
    | named id type =>
      rcases List.mem_cons.mp h with rfl | hMem
      · exact .inr ⟨_, .head _, rfl⟩
      · exact hLater hMem
    | unnamed type | variadic names type =>
      rcases List.mem_append.mp h with hWord | hMem
      · exact .inl (hWords _ hWord)
      · rcases List.mem_cons.mp hMem with rfl | hMem
        · exact .inr ⟨_, .head _, rfl⟩
        · exact hLater hMem

theorem forall_slots_noted {ps : List Parameter} (h : ∀ p ∈ ps, p.type.NotedIn input rest) :
    ∀ slot ∈ ps.flatMap Parameter.slots, slot.type.NotedIn input rest := by
  intro slot hSlot
  obtain ⟨p, hMem, hSlot⟩ := List.mem_flatMap.mp hSlot
  have hType : slot.type = p.type := by
    rw [Parameter.slots] at hSlot
    split at hSlot
    · rw [List.mem_singleton.mp hSlot]
    · obtain ⟨_, -, rfl⟩ := List.mem_map.mp hSlot
      rfl
  rw [hType]
  exact h p hMem

section

variable (hG : g.Forward)
  (hNoted : ∀ {lineEnds input type rest}, g.type lineEnds input = some (type, rest) → type.NotedIn input.tail rest)
include hG hNoted

theorem parameters_noted {ps : List Parameter} (h : g.parameters input = some (ps, rest)) :
    ∀ slot ∈ ps.flatMap Parameter.slots, slot.type.NotedIn input.tail rest := by
  simp only [parameters, Option.bind_eq_bind, Option.bind_eq_some_iff] at h
  obtain ⟨⟨entries, behind⟩, hEntries, h⟩ := h
  cases h
  have hAll : ∀ e ∈ entries, ∀ type, e.type? = some type → type.NotedIn input.tail behind :=
    bracketed?_forall (fun input rest e => ∀ type, e.type? = some type → type.NotedIn input rest) (entry_forward hG)
      (fun hRead _ hType => entry_noted hNoted hRead hType)
      (fun hSays hInput hRest _ hType => (hSays _ hType).mono hInput hRest) hEntries
  refine forall_slots_noted fun p hMem => ?_
  rcases type_of_mem_groupEntries hMem with hWord | ⟨e, hEntry, hType⟩
  · exact TypeExpr.notedIn_of_standIn hWord
  · exact hAll e hEntry p.type hType

theorem result_noted {lineEnds : Bool} {result : Option Result} (h : g.result lineEnds input = some (result, rest))
    (ps : List Parameter) : ∀ slot ∈ (⟨ps, result⟩ : Signature).given, slot.type.NotedIn input.tail rest := by
  unfold Grammar.result at h
  split at h
  · cases h
    exact List.forall_mem_nil _
  · split at h
    · simp only [Option.bind_eq_bind, Option.bind_eq_some_iff] at h
      obtain ⟨⟨list, behind⟩, hList, h⟩ := h
      cases h
      exact parameters_noted hG hNoted hList
    · split at h
      · simp only [Option.bind_eq_bind, Option.bind_eq_some_iff] at h
        obtain ⟨⟨type, behind⟩, hType, h⟩ := h
        cases h
        exact List.forall_mem_singleton.mpr (hNoted hType)
      · cases h
        exact List.forall_mem_nil _

end

theorem ofDepth_noted (depth : Nat) {lineEnds : Bool} {type : TypeExpr}
    (h : (ofDepth depth).type lineEnds input = some (type, rest)) : type.NotedIn input.tail rest := by
  induction depth generalizing lineEnds input type rest with
  | zero => cases h
  | succ depth ih => exact typeStep_noted (ofDepth_forward depth) ih h

/-- Where a function has its lists: behind its keyword, its name and its type parameters stand the lexemes of the
parameters, then those of the results. -/
inductive ListsAt (g : Grammar) (f : FunctionDecl) (taken given : Input) : Input → Prop
  | behind {before between : List Trivia} {types rest : Input} :
      (types = [] ∨ ∃ units,
        g.typeParameters (types ++ (taken ++ (given ++ rest))) = some (units, taken ++ (given ++ rest))) →
      g.parameters (taken ++ (given ++ rest)) = some (f.signature.parameters, given ++ rest) →
      g.result true (given ++ rest) = some (f.signature.result, rest) →
      ListsAt g f taken given
        (⟨before, .keyword .func⟩ :: ⟨between, .word f.name⟩ :: (types ++ (taken ++ (given ++ rest))))

/-- No type is hidden if no comment stands inside the lists. What stands before their first lexeme is outside. -/
theorem ListsAt.uncommented {depth : Nat} {f : FunctionDecl} {taken given start : Input}
    (h : (ofDepth depth).ListsAt f taken given start)
    (hPlain : ∀ l ∈ taken.tail ++ given.tail, l.firstComment = .none) : f.signature.Uncommented := by
  obtain ⟨-, hTaken, hGiven⟩ := h
  have hForward := ofDepth_forward depth
  obtain ⟨hPlainTaken, hPlainGiven⟩ := List.forall_mem_append.mp hPlain
  refine List.forall_mem_append.mpr ⟨fun slot hSlot => ?_, fun slot hSlot => ?_⟩
  · exact (parameters_noted hForward (ofDepth_noted depth) hTaken slot hSlot).standIn_eq_none hPlainTaken
  · exact (result_noted hForward (ofDepth_noted depth) hGiven _ slot hSlot).standIn_eq_none hPlainGiven

section

variable (hG : g.Forward)
include hG

theorem exists_lists_of_signature {lineEnds : Bool} {s : Signature} (h : g.signature lineEnds input = some (s, rest)) :
    ∃ taken given, input = taken ++ (given ++ rest) ∧
      g.parameters (taken ++ (given ++ rest)) = some (s.parameters, given ++ rest) ∧
      g.result lineEnds (given ++ rest) = some (s.result, rest) := by
  simp only [signature, Option.bind_eq_bind, Option.bind_eq_some_iff] at h
  obtain ⟨⟨ps, behind⟩, hParameters, ⟨result, last⟩, hResult, h⟩ := h
  cases h
  obtain ⟨taken, rfl⟩ := parameters_forward hG hParameters
  obtain ⟨given, rfl⟩ := result_forward hG lineEnds hResult
  exact ⟨taken, given, rfl, hParameters, hResult⟩

theorem exists_listsAt_of_function {f : FunctionDecl} (h : g.function input = some (.function f, rest))
    (before : List Trivia) : ∃ taken given, g.ListsAt f taken given (⟨before, .keyword .func⟩ :: input) := by
  simp only [function, Option.bind_eq_bind, Option.bind_eq_some_iff] at h
  obtain ⟨⟨id, behind⟩, hWord, h⟩ := h
  obtain ⟨between, rfl⟩ := exists_cons_of_word hWord
  split at h
  · simp only [Option.bind_eq_some_iff, Option.map_eq_some_iff] at h
    obtain ⟨_, ⟨⟨units, start⟩, hTypes, rfl⟩, ⟨s, last⟩, hSignature, _, -, h⟩ := h
    cases h
    obtain ⟨types, rfl⟩ := typeParameters_forward hG hTypes
    obtain ⟨taken, given, rfl, hTaken, hGiven⟩ := exists_lists_of_signature hG hSignature
    exact ⟨taken, given, .behind (.inr ⟨units, hTypes⟩) hTaken hGiven⟩
  · simp only [Option.bind_eq_some_iff] at h
    obtain ⟨start, hStart, ⟨s, last⟩, hSignature, _, -, h⟩ := h
    cases h
    obtain ⟨taken, given, rfl, hTaken, hGiven⟩ := exists_lists_of_signature hG hSignature
    cases hStart
    have hTypes : ([] : Input) = [] := rfl
    exact ⟨taken, given, .behind (.inl hTypes) hTaken hGiven⟩

theorem exists_listsAt_of_item {f : FunctionDecl} {last : Bool} (h : g.item input = some ((.function f, last), rest)) :
    ∃ taken given, g.ListsAt f taken given input := by
  cases itemAt_of_item h with
  | function hFunction => exact exists_listsAt_of_function hG hFunction _
  | method hMethod =>
    obtain ⟨m, hOther⟩ := exists_eq_method hMethod
    cases hOther
  | statement hStatement => cases statementItem_word? hStatement

end

end Grammar

namespace SourceFile

/-- How a function of a source can be called, if no comment stands inside its lists: its slots decide. -/
theorem invocation_eq_iff_of_parse {source : Text} {unit : SourceFile} (hParse : parse source = some unit) :
    ∃ ls items, lexemes source = some ls ∧ placedItems ls = some items ∧ unit.items = items.map Prod.fst ∧
      ∀ item start f, (item, start) ∈ items → item.function? = some f → ∃ taken given,
        (Grammar.ofDepth (4 * ls.length)).ListsAt f taken given start ∧
        ((∀ l ∈ taken.tail ++ given.tail, l.firstComment = none) → ∀ context outcome,
          f.signature.invocation context = outcome ↔ f.signature.Verdict context outcome) := by
  obtain ⟨ls, items, hLexemes, hItems, hUnit⟩ := exists_placedItems_of_parse hParse
  refine ⟨ls, items, hLexemes, hItems, hUnit, fun item start f hPlaced hFunction => ?_⟩
  have hForward := Grammar.ofDepth_forward (4 * ls.length)
  obtain ⟨-, last, rest, hItem⟩ := Grammar.item_of_placedItemsOf hForward hItems _ hPlaced
  rw [Item.function?_eq_some_iff.mp hFunction] at hItem
  obtain ⟨taken, given, hLists⟩ := Grammar.exists_listsAt_of_item hForward hItem
  exact ⟨taken, given, hLists, fun hPlain context _ => Signature.invocation_eq_iff (hLists.uncommented hPlain) context⟩

end SourceFile

end GoCommands.Go
