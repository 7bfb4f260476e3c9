import GoCommands.Go.Parser
import GoCommands.Proofs.Go.Forward.Statements

/-! # Names in declarations are words of the source

The readers of every nesting level go forward, so each item of a file is read from a place in its lexemes. The
name of a package clause or of a function is a word among them.
-/

namespace GoCommands.Go

open Reader

namespace Grammar

theorem ofDepth_forward (depth : Nat) : (ofDepth depth).Forward := by
  induction depth with
  | zero =>
    have hNone : ∀ α, Reader.Forward fun _ : Input => (.none : Option (α × Input)) := by
      intro α input value rest h
      cases h
    exact ⟨fun _ => hNone _, fun _ => hNone _, hNone _, hNone _, hNone _, hNone _⟩
  | succ depth ih =>
    exact {
      type := typeStep_forward ih
      expr := exprStep_forward ih
      block := blockStep_forward ih
      statement := statementStep_forward ih
      conditional := conditionalStep_forward ih
      literalValue := literalValueStep_forward ih }

theorem importSpec_forward : Reader.Forward importSpec := by
  intro input value rest h
  simp only [importSpec, importSpec.named, Option.bind_eq_bind] at h
  grind [Option.bind_eq_some_iff]

theorem importSpecs_forward : Reader.Forward importSpecs := by
  intro input value rest h
  have hSpec := importSpec_forward
  have hSpecs := terminated_forward hSpec false .parenClose
  simp only [importSpecs, Option.bind_eq_bind] at h
  grind [Option.bind_eq_some_iff]

/-- What an item is read as: a clause, an import, a function or a method, each behind its keyword, or a statement. -/
inductive ItemAt (g : Grammar) : Input → Declaration → Input → Prop
  | package {before : List Trivia} {input rest : Input} {name : Text} : word input = some (name, rest) →
      ItemAt g (⟨before, .keyword .package⟩ :: input) (.package name) rest
  | imports {before : List Trivia} {input rest : Input} {specs : List ImportSpec} :
      importSpecs input = some (specs, rest) →
      ItemAt g (⟨before, .keyword .import_⟩ :: input) (.imports specs) rest
  | function {before : List Trivia} {input rest : Input} {declaration : Declaration} :
      g.function input = some (declaration, rest) →
      ItemAt g (⟨before, .keyword .func⟩ :: input) declaration rest
  | method {before : List Trivia} {input rest : Input} {declaration : Declaration} :
      g.method input = some (declaration, rest) →
      ItemAt g (⟨before, .keyword .func⟩ :: input) declaration rest
  | statement {input rest : Input} {declaration : Declaration} {last : Bool} :
      item.statement g input = some ((declaration, last), rest) → ItemAt g input declaration rest

theorem itemAt_of_item {g : Grammar} {input rest : Input} {declaration : Declaration} {last : Bool}
    (h : g.item input = some ((declaration, last), rest)) : g.ItemAt input declaration rest := by
  unfold item at h
  split at h
  · simp only [Option.bind_eq_bind, Option.bind_eq_some_iff] at h
    obtain ⟨_, hWord, h⟩ := h
    cases h
    exact .package hWord
  · simp only [Option.bind_eq_bind, Option.bind_eq_some_iff] at h
    obtain ⟨_, hSpecs, h⟩ := h
    cases h
    exact .imports hSpecs
  · split at h
    · rename_i hRead
      cases h
      rcases Option.or_eq_some_iff.mp hRead with hFunction | ⟨-, hMethod⟩
      · exact .function hFunction
      · exact .method hMethod
    · split at h
      · cases h
      · exact .statement h
  · exact .statement h

section

variable {g : Grammar} (hG : g.Forward)
include hG

theorem body?_forward : Reader.Forward g.body? := by
  intro input value rest h
  simp only [body?, Option.bind_eq_bind] at h
  grind [Option.bind_eq_some_iff]

theorem function_forward : Reader.Forward g.function := by
  intro input value rest h
  have hParameters := typeParameters_forward hG
  have hSignature := signature_forward hG true
  have hBody := body?_forward hG
  simp only [function, Option.bind_eq_bind] at h
  grind [Option.bind_eq_some_iff, Option.map_eq_some_iff]

theorem method_forward : Reader.Forward g.method := by
  intro input value rest h
  have hParameters := parameters_forward hG
  have hSignature := signature_forward hG true
  have hBody := body?_forward hG
  simp only [method, Option.bind_eq_bind, Option.bind_eq_some_iff] at h
  grind

theorem statementItem_forward : Reader.Forward (item.statement g) := by
  intro input value rest h
  simp only [item.statement, Option.bind_eq_bind, Option.bind_eq_some_iff] at h
  grind

theorem item_forward : Reader.Forward g.item := by
  rintro input ⟨declaration, last⟩ rest h
  cases itemAt_of_item h with
  | package hWord => exact (word_suffix hWord).trans (List.suffix_cons _ _)
  | imports hSpecs => exact (importSpecs_forward hSpecs).trans (List.suffix_cons _ _)
  | function hFunction => exact (function_forward hG hFunction).trans (List.suffix_cons _ _)
  | method hMethod => exact (method_forward hG hMethod).trans (List.suffix_cons _ _)
  | statement hStatement => exact statementItem_forward hG hStatement

end

end Grammar

/-- The name that a package clause or a function declares. -/
def Declaration.word? : Declaration → Option Text
  | .package name => some name
  | .function f => some f.name
  | _ => none

namespace Grammar

section

variable (g : Grammar)

/-- The items of a file, each with the lexemes from its first one on. -/
def placedItemsOf : (fuel : Nat) → (follows : Bool) → Input → Option (List (Item × Input))
  | 0, _, _ => .none
  | _, _, [] => .none
  | fuel + 1, follows, l :: rest =>
    if l.token == .eof then some []
    else do
      let ((declaration, last), behind) ← g.item (l :: rest)
      let item : Item := ⟨l.before, follows, declaration⟩
      match terminator behind with
      | some behind => do some ((item, l :: rest) :: (← placedItemsOf fuel true behind))
      | .none => if last && ahead false behind == some .eof then some [(item, l :: rest)] else .none

theorem itemsOf_eq_map (fuel : Nat) (follows : Bool) (input : Input) :
    g.itemsOf fuel follows input = (g.placedItemsOf fuel follows input).map (List.map Prod.fst) := by
  induction fuel generalizing follows input with
  | zero => rfl
  | succ fuel ih =>
    cases input with
    | nil => rfl
    | cons l rest =>
      rw [itemsOf, placedItemsOf]
      split
      · rfl
      · cases g.item (l :: rest) with
        | none => rfl
        | some read =>
          obtain ⟨⟨declaration, last⟩, behind⟩ := read
          simp only [Option.bind_eq_bind, Option.bind_some]
          cases terminator behind with
          | none =>
            simp only
            split <;> rfl
          | some next =>
            simp only [ih]
            cases g.placedItemsOf fuel true next <;> rfl

end

theorem exists_cons_of_word {input rest : Input} {name : Text} (h : word input = some (name, rest)) :
    ∃ before, input = ⟨before, .word name⟩ :: rest := by
  unfold word at h
  split at h
  · cases h
    exact ⟨_, rfl⟩
  · cases h

theorem exists_of_word {input rest : Input} {name : Text} (h : word input = some (name, rest)) :
    ∃ l ∈ input, l.token = .word name := by
  obtain ⟨before, rfl⟩ := exists_cons_of_word h
  exact ⟨_, .head _, rfl⟩

variable {g : Grammar} {input rest : Input} {declaration : Declaration} {last : Bool} {name : Text}

theorem exists_eq_function (h : g.function input = some (declaration, rest)) :
    ∃ f, declaration = .function f ∧ ∃ l ∈ input, l.token = .word f.name := by
  simp only [function, Option.bind_eq_bind, Option.bind_eq_some_iff] at h
  obtain ⟨⟨id, behind⟩, hWord, h⟩ := h
  have hDeclared : ∃ signature, declaration = .function ⟨id, signature⟩ := by
    split at h
    all_goals
      simp only [Option.bind_eq_some_iff] at h
      grind
  obtain ⟨signature, rfl⟩ := hDeclared
  exact ⟨_, rfl, exists_of_word hWord⟩

theorem exists_eq_method (h : g.method input = some (declaration, rest)) : ∃ m, declaration = .method m := by
  simp only [method, Option.bind_eq_bind, Option.bind_eq_some_iff] at h
  obtain ⟨_, -, _, -, _, -, _, -, h⟩ := h
  cases h
  exact ⟨_, rfl⟩

theorem statementItem_word? (h : item.statement g input = some ((declaration, last), rest)) :
    declaration.word? = .none := by
  simp only [item.statement, Option.bind_eq_bind, Option.bind_eq_some_iff] at h
  obtain ⟨_, -, h⟩ := h
  split at h
  · cases h
    rfl
  · cases h
    rfl

/-- A declared name is a word of the declaration. -/
theorem exists_of_item (h : g.item input = some ((declaration, last), rest))
    (hName : declaration.word? = some name) : ∃ l ∈ input, l.token = .word name := by
  cases itemAt_of_item h with
  | package hWord =>
    cases hName
    obtain ⟨l, hl, hToken⟩ := exists_of_word hWord
    exact ⟨l, .tail _ hl, hToken⟩
  | imports hSpecs => cases hName
  | function hFunction =>
    obtain ⟨f, rfl, l, hl, hToken⟩ := exists_eq_function hFunction
    cases hName
    exact ⟨l, .tail _ hl, hToken⟩
  | method hMethod =>
    obtain ⟨m, rfl⟩ := exists_eq_method hMethod
    cases hName
  | statement hStatement =>
    rw [statementItem_word? hStatement] at hName
    cases hName

/-- A run over items: the file ends, or an item is read, and behind it the file ends or the run goes on. -/
theorem placedItemsOf_eq_some {fuel : Nat} {follows : Bool} {items : List (Item × Input)}
    (h : g.placedItemsOf (fuel + 1) follows input = some items) : items = [] ∨
      ∃ l rest declaration last behind more, input = l :: rest ∧ (l.token == .eof) = false ∧
        g.item (l :: rest) = some ((declaration, last), behind) ∧
        items = (⟨l.before, follows, declaration⟩, l :: rest) :: more ∧
        (more = [] ∨ ∃ next, terminator behind = some next ∧ g.placedItemsOf fuel true next = some more) := by
  cases input with
  | nil => cases h
  | cons l rest =>
    rw [placedItemsOf] at h
    split at h
    · cases h
      exact .inl rfl
    · rename_i hEof
      simp only [Option.bind_eq_bind, Option.bind_eq_some_iff] at h
      obtain ⟨⟨⟨declaration, last⟩, behind⟩, hRead, h⟩ := h
      split at h
      · rename_i next hNext
        obtain ⟨more, hMore, h⟩ := Option.bind_eq_some_iff.mp h
        cases h
        exact .inr ⟨l, rest, declaration, last, behind, more, rfl, Bool.eq_false_iff.mpr hEof, hRead, rfl,
          .inr ⟨next, hNext, hMore⟩⟩
      · split at h
        · cases h
          exact .inr ⟨l, rest, declaration, last, behind, [], rfl, Bool.eq_false_iff.mpr hEof, hRead, rfl, .inl rfl⟩
        · cases h

/-- Each item is read at its place. -/
theorem item_of_placedItemsOf (hG : g.Forward) {fuel : Nat} {follows : Bool} {items : List (Item × Input)}
    (h : g.placedItemsOf fuel follows input = some items) : ∀ placed ∈ items, placed.2 <:+ input ∧
      ∃ last rest, g.item placed.2 = some ((placed.1.declaration, last), rest) := by
  induction fuel generalizing follows input items with
  | zero => cases h
  | succ fuel ih =>
    rcases placedItemsOf_eq_some h with rfl | ⟨l, rest, declaration, last, behind, more, rfl, -, hRead, rfl, hMore⟩
    · exact List.forall_mem_nil _
    refine List.forall_mem_cons.mpr ⟨⟨List.suffix_rfl, last, behind, hRead⟩, fun placed hPlaced => ?_⟩
    rcases hMore with rfl | ⟨next, hNext, hMore⟩
    · cases hPlaced
    · obtain ⟨hSuffix, hItem⟩ := ih hMore placed hPlaced
      exact ⟨hSuffix.trans ((terminator_suffix hNext).trans (item_forward hG hRead)), hItem⟩

/-- What a declaration says of the lexemes from its own on, each declaration of a file says of all lexemes. -/
theorem itemsOf_forall (hG : g.Forward) {Q : Input → Declaration → Prop}
    (hSays : ∀ {input declaration last rest}, g.item input = some ((declaration, last), rest) → Q input declaration)
    (hMono : ∀ {input input' declaration}, Q input declaration → input <:+ input' → Q input' declaration)
    {fuel : Nat} {follows : Bool} {items : List Item} (h : g.itemsOf fuel follows input = some items) :
    ∀ item ∈ items, Q input item.declaration := by
  rw [itemsOf_eq_map] at h
  obtain ⟨items, hItems, rfl⟩ := Option.map_eq_some_iff.mp h
  refine List.forall_mem_map.mpr fun placed hPlaced => ?_
  obtain ⟨hSuffix, last, rest, hItem⟩ := item_of_placedItemsOf hG hItems placed hPlaced
  exact hMono (hSays hItem) hSuffix

theorem exists_of_itemsOf (hG : g.Forward) {fuel : Nat} {follows : Bool} {items : List Item} {item : Item}
    (h : g.itemsOf fuel follows input = some items) (hItem : item ∈ items)
    (hName : item.declaration.word? = some name) : ∃ l ∈ input, l.token = .word name := by
  refine itemsOf_forall hG (Q := fun input declaration => declaration.word? = some name →
    ∃ l ∈ input, l.token = .word name) exists_of_item (fun hWord hInput hName => ?_) h item hItem hName
  obtain ⟨l, hl, hToken⟩ := hWord hName
  exact ⟨l, hInput.subset hl, hToken⟩

end Grammar

namespace SourceFile

/-- The names of package clauses and functions are words of the source text. -/
theorem exists_word_of_parse {source : Text} {unit : SourceFile} (h : parse source = some unit) :
    ∃ ls, lexemes source = some ls ∧ ∀ item ∈ unit.items, ∀ name, item.declaration.word? = some name →
      ∃ l ∈ ls, l.token = .word name := by
  obtain ⟨ls, hLexemes, hUnit⟩ := Option.bind_eq_some_iff.mp h
  obtain ⟨items, hItems, rfl⟩ := Option.map_eq_some_iff.mp hUnit
  exact ⟨ls, hLexemes, fun item hItem name hName =>
    Grammar.exists_of_itemsOf (Grammar.ofDepth_forward _) hItems hItem hName⟩

end SourceFile

end GoCommands.Go
