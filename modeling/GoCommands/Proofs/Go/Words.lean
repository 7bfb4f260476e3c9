import GoCommands.Proofs.Go.Forward.Items
import GoCommands.Proofs.Go.Readings
import GoCommands.Proofs.Text.Classes

/-! # Words

Words start with a letter or an underscore and are no keywords. The names of functions and packages in a
source file are words.
-/

namespace GoCommands.Go

/-- A word that is no keyword. -/
structure IsWord (w : Text) : Prop where
  shape : ∃ c cs, w = c :: cs ∧ Text.isIdentifierStart c ∧ ∀ d ∈ cs, Text.isIdentifierPart d
  notKeyword : Keyword.ofText? w = none

theorem isWord_of_all {w : Text} (hStart : w.head?.any Text.isIdentifierStart)
    (hPart : w.tail.all Text.isIdentifierPart) (hKeyword : Keyword.ofText? w = none) : IsWord w := by
  cases w with
  | nil => cases hStart
  | cons c cs => exact ⟨⟨c, cs, rfl, hStart, List.all_eq_true.mp hPart⟩, hKeyword⟩

namespace IsWord

variable {w : Text} (h : IsWord w)
include h

theorem ne_nil : w ≠ [] := by
  obtain ⟨c, cs, rfl, -⟩ := h.shape
  exact List.cons_ne_nil c cs

theorem not_mem {c : Char} (hStart : ¬ Text.isIdentifierStart c) (hPart : ¬ Text.isIdentifierPart c) : c ∉ w := by
  obtain ⟨d, cs, rfl, hFirst, hOthers⟩ := h.shape
  intro hMem
  rcases List.mem_cons.mp hMem with rfl | hMem
  · exact hStart hFirst
  · exact hPart (hOthers c hMem)

theorem not_isWhite {c : Char} (hMem : c ∈ w) : ¬ Text.isWhite c := fun hWhite =>
  h.not_mem (fun hStart => Text.not_isWhite_of_isIdentifierStart hStart hWhite)
    (fun hPart => Text.not_isWhite_of_isIdentifierPart hPart hWhite) hMem

theorem not_mem_of_isWhite {c : Char} (hWhite : Text.isWhite c) : c ∉ w :=
  fun hMem => h.not_isWhite hMem hWhite

end IsWord

namespace Lexer

theorem isWord_of_token? {t rest : Text} {w : Text} (h : token? t = some (.word w, rest)) : IsWord w := by
  cases tokenAt_of_token? h with
  | word hStart hKeyword => exact ⟨⟨_, _, rfl, hStart, List.all_eq_true.mp List.all_takeWhile⟩, hKeyword⟩

theorem isWord_of_mem_lexemesWithin {fuel : Nat} {t : Text} {ls : List Lexeme}
    (h : lexemesWithin fuel t = some ls) {l : Lexeme} (hl : l ∈ ls) {w : Text} (hToken : l.token = .word w) :
    IsWord w := by
  induction fuel generalizing t ls with
  | zero => cases h
  | succ fuel ih =>
    rcases lexemesWithin_eq_some h with ⟨rfl, -⟩ | ⟨token, behind, more, hRead, hMore, rfl⟩
    · cases List.mem_singleton.mp hl
      cases hToken
    · rcases List.mem_cons.mp hl with rfl | hl
      · cases hToken
        exact isWord_of_token? hRead
      · exact ih hMore hl

end Lexer

namespace SourceFile

theorem isWord_of_parse {source : Text} {unit : SourceFile} (h : parse source = some unit) {item : Item}
    (hItem : item ∈ unit.items) {name : Text} (hName : item.declaration.word? = some name) :
    IsWord name := by
  obtain ⟨ls, hLexemes, hWords⟩ := exists_word_of_parse h
  obtain ⟨l, hl, hToken⟩ := hWords item hItem name hName
  exact Lexer.isWord_of_mem_lexemesWithin hLexemes hl hToken

end SourceFile

end GoCommands.Go
