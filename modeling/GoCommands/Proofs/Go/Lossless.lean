import GoCommands.Proofs.Go.Lexing

/-! # Lexing loses nothing

Every reader of the lexer splits its text: what it has read and what it leaves make up the text again. So the
lexemes of a source are the source.
-/

namespace GoCommands.Go

theorem Keyword.text_of_ofText? {word : Text} {k : Keyword} (h : ofText? word = some k) : k.text = word := by
  have hMatch := List.find?_some (show all.find? (fun k => k.text == word) = some k from h)
  exact beq_iff_eq.mp hMatch

theorem Symbol.text_append_of_read? {t rest : Text} {s : Symbol} (h : read? t = some (s, rest)) :
    s.text ++ rest = t := by
  unfold read? at h
  split at h <;> cases h <;> rfl

namespace Lexer

/-- A comment behind two slashes ends with its line. -/
theorem newline_not_mem_of_comment? {t line rest : Text} (h : comment? t = some ('/' :: '/' :: line, rest)) :
    '\n' ∉ line := by
  obtain ⟨-, hComment⟩ := comment?_eq_some_iff.mp h
  cases hComment with
  | line hLine _ => exact hLine

theorem trivia_append (fuel : Nat) (t : Text) : (trivia fuel t).1.flatMap Trivia.text ++ (trivia fuel t).2 = t := by
  induction fuel generalizing t with
  | zero => rfl
  | succ fuel ih =>
    cases t with
    | nil => rfl
    | cons c cs =>
      rw [trivia]
      split
      · rw [List.flatMap_cons, List.append_assoc, ih]
        simp only [Trivia.text, List.cons_append, List.takeWhile_append_dropWhile]
      · split
        · rename_i hComment
          rw [List.flatMap_cons, List.append_assoc, ih]
          exact (comment?_eq_some_iff.mp hComment).1.symm
        · rfl

theorem newline_not_mem_of_trivia {fuel : Nat} {t line : Text}
    (h : .comment ('/' :: '/' :: line) ∈ (trivia fuel t).1) : '\n' ∉ line := by
  induction fuel generalizing t with
  | zero => cases h
  | succ fuel ih =>
    cases t with
    | nil => cases h
    | cons c cs =>
      rw [trivia] at h
      split at h
      · rcases List.mem_cons.mp h with hFirst | hMore
        · cases hFirst
        · exact ih hMore
      · split at h
        · rename_i hComment
          rcases List.mem_cons.mp h with hFirst | hMore
          · cases hFirst
            exact newline_not_mem_of_comment? hComment
          · exact ih hMore
        · cases h

theorem token?_append {t rest : Text} {token : Token} (h : token? t = some (token, rest)) :
    token.text ++ rest = t := by
  cases tokenAt_of_token? h with
  | keyword _ hKeyword =>
    rw [Token.text, Keyword.text_of_ofText? hKeyword, List.cons_append, List.takeWhile_append_dropWhile]
  | word => exact congrArg (List.cons _) List.takeWhile_append_dropWhile
  | string hLiteral => exact (string?_eq_some_iff.mp hLiteral).1.symm
  | rawString hLiteral => exact (rawString?_eq_some_iff.mp hLiteral).1.symm
  | rune | number => exact List.take_append_drop _ _
  | symbol _ _ hSymbol => exact Symbol.text_append_of_read? hSymbol

theorem textOf_lexemesWithin {fuel : Nat} {t : Text} {ls : List Lexeme} (h : lexemesWithin fuel t = some ls) :
    textOf ls = t := by
  induction fuel generalizing t ls with
  | zero => cases h
  | succ fuel ih =>
    have hTrivia := trivia_append (fuel + 1) t
    rcases lexemesWithin_eq_some h with ⟨rfl, hEnd⟩ | ⟨token, behind, more, hToken, hMore, rfl⟩
    · rw [hEnd] at hTrivia
      rw [textOf, List.flatMap_singleton, Lexeme.text]
      exact hTrivia
    · have hRest : textOf more = behind := ih hMore
      rw [textOf] at hRest ⊢
      rw [List.flatMap_cons, Lexeme.text, hRest, List.append_assoc, token?_append hToken, hTrivia]

theorem newline_not_mem_of_lexemesWithin {fuel : Nat} {t : Text} {ls : List Lexeme}
    (h : lexemesWithin fuel t = some ls) {l : Lexeme} (hl : l ∈ ls) {line : Text}
    (hComment : .comment ('/' :: '/' :: line) ∈ l.before) : '\n' ∉ line := by
  induction fuel generalizing t ls with
  | zero => cases h
  | succ fuel ih =>
    rcases lexemesWithin_eq_some h with ⟨rfl, -⟩ | ⟨token, behind, more, -, hMore, rfl⟩
    · rw [List.mem_singleton.mp hl] at hComment
      exact newline_not_mem_of_trivia hComment
    · rcases List.mem_cons.mp hl with rfl | hl
      · exact newline_not_mem_of_trivia hComment
      · exact ih hMore hl

end Lexer

variable {source : Text} {ls : List Lexeme} (h : lexemes source = some ls)
include h

theorem textOf_lexemes : textOf ls = withoutMark source := Lexer.textOf_lexemesWithin h

theorem newline_not_mem_of_lexemes {l : Lexeme} (hl : l ∈ ls) {line : Text}
    (hComment : .comment ('/' :: '/' :: line) ∈ l.before) : '\n' ∉ line :=
  Lexer.newline_not_mem_of_lexemesWithin h hl hComment

end GoCommands.Go
