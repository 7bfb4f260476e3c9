import GoCommands.Proofs.Go.Declared
import GoCommands.Proofs.Go.Rows

/-! # Places of declarations

The items of a file are read one behind the other, each from a place in its lexemes. An item that is not the
first one has a token before it.
-/

namespace GoCommands.Go

open Reader

namespace Grammar

variable {g : Grammar} {fuel : Nat} {follows : Bool} {input : Input} {items : List (Item × Input)}

/-- A reader that takes nothing takes nothing again, so a file with such an item would have no end. -/
theorem ne_of_placedItemsOf {l : Lexeme} {rest behind next : Input} {declaration : Declaration} {last : Bool}
    (h : g.placedItemsOf fuel follows (l :: rest) = some items) (hEof : (l.token == .eof) = false)
    (hItem : g.item (l :: rest) = some ((declaration, last), behind)) (hNext : terminator behind = some next) :
    next ≠ l :: rest := by
  rintro rfl
  have hNone : ∀ fuel follows, g.placedItemsOf fuel follows (l :: rest) = .none := by
    intro fuel
    induction fuel with
    | zero => exact fun _ => rfl
    | succ fuel ih =>
      intro follows
      rw [placedItemsOf, hEof, hItem]
      simp only [Option.bind_eq_bind, Option.bind_some, hNext, ih]
      rfl
  rw [hNone] at h
  cases h

/-- Where an item of a source is read. -/
structure IsPlace (ls : Input) (item : Item) (start : Input) : Prop where
  suffix : start <:+ ls
  exists_cons : ∃ l rest, start = l :: rest ∧ item.before = l.before
  follows_iff : item.follows ↔ start ≠ ls

theorem isPlace_of_placedItemsOf (hG : g.Forward) {ls : Input} (hSuffix : input <:+ ls)
    (hFollows : follows ↔ input ≠ ls) (h : g.placedItemsOf fuel follows input = some items) :
    ∀ placed ∈ items, IsPlace ls placed.1 placed.2 := by
  induction fuel generalizing follows input items with
  | zero => cases h
  | succ fuel ih =>
    have hWhole := h
    rcases placedItemsOf_eq_some h with rfl | ⟨l, rest, declaration, last, behind, more, rfl, hEof, hRead, rfl, hMore⟩
    · exact List.forall_mem_nil _
    have hHere : IsPlace ls ⟨l.before, follows, declaration⟩ (l :: rest) := ⟨hSuffix, ⟨l, rest, rfl, rfl⟩, hFollows⟩
    rcases hMore with rfl | ⟨next, hNext, hMore⟩
    · exact List.forall_mem_singleton.mpr hHere
    · have hLeft : next <:+ l :: rest := (terminator_suffix hNext).trans (item_forward hG hRead)
      have hOther : next ≠ ls := by
        rintro rfl
        exact ne_of_placedItemsOf hWhole hEof hRead hNext (hLeft.eq_of_length_le hSuffix.length_le)
      exact List.forall_mem_cons.mpr ⟨hHere, ih (hLeft.trans hSuffix) (iff_of_true rfl hOther) hMore⟩

end Grammar

namespace SourceFile

/-- The items of a list of lexemes with their places. -/
def placedItems (ls : List Lexeme) : Option (List (Item × Input)) :=
  (Grammar.ofDepth (4 * ls.length)).placedItemsOf ls.length false ls

theorem parse_eq_map {source : Text} {ls : List Lexeme} (h : lexemes source = some ls) :
    parse source = (placedItems ls).map fun items => ⟨items.map Prod.fst⟩ := by
  rw [parse, h, Option.bind_some, ofLexemes, Grammar.itemsOf_eq_map, Option.map_map]
  rfl

theorem exists_placedItems_of_parse {source : Text} {f : SourceFile} (h : parse source = some f) :
    ∃ ls items, lexemes source = some ls ∧ placedItems ls = some items ∧ f.items = items.map Prod.fst := by
  obtain ⟨ls, hLexemes, -⟩ := Option.bind_eq_some_iff.mp h
  rw [parse_eq_map hLexemes] at h
  obtain ⟨items, hItems, rfl⟩ := Option.map_eq_some_iff.mp h
  exact ⟨ls, items, hLexemes, hItems, rfl⟩

theorem isPlace_of_placedItems {ls : List Lexeme} {items : List (Item × Input)}
    (h : placedItems ls = some items) {item : Item} {start : Input} (hItem : (item, start) ∈ items) :
    Grammar.IsPlace ls item start :=
  Grammar.isPlace_of_placedItemsOf (Grammar.ofDepth_forward _) List.suffix_rfl
    (iff_of_false Bool.false_ne_true fun hNe => hNe rfl) h _ hItem

end SourceFile

end GoCommands.Go
