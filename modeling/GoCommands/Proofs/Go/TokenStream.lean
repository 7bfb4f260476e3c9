import GoCommands.Proofs.Go.Comments
import GoCommands.Proofs.Go.TokenReach

/-! # The tokens of a text

The tokens alone, without the white space and the comments before them. They are those behind what is skipped at the
start of the text, as long as there is fuel for every character.
-/

namespace GoCommands.Go.Lexer

theorem length_dropWhile_blank (c : Char) (cs : Text) : (cs.dropWhile isBlank).length < (c :: cs).length :=
  Nat.lt_succ_of_le (List.dropWhile_suffix isBlank).length_le

theorem trivia_eq_of_le {fuel more : Nat} {t : Text} (h : t.length ≤ fuel) (hMore : t.length ≤ more) :
    trivia fuel t = trivia more t := by
  induction fuel generalizing t more with
  | zero =>
    rw [List.eq_nil_of_length_eq_zero (Nat.le_zero.mp h)]
    cases more <;> rfl
  | succ fuel ih =>
    cases t with
    | nil => cases more <;> rfl
    | cons c cs =>
      obtain ⟨more, rfl⟩ := Nat.exists_eq_add_of_le' (Nat.le_trans (Nat.le_add_left 1 _) hMore)
      have hLater : ∀ {rest : Text}, rest.length < (c :: cs).length → trivia fuel rest = trivia more rest :=
        fun hShorter => ih (Nat.le_of_lt_succ (Nat.lt_of_lt_of_le hShorter h))
          (Nat.le_of_lt_succ (Nat.lt_of_lt_of_le hShorter hMore))
      rw [trivia, trivia, hLater (length_dropWhile_blank c cs)]
      split
      · rfl
      · split
        · rename_i hComment
          rw [hLater (comment?_length hComment)]
        · rfl

/-- The text behind the white space and the comments at its start. -/
def skipped (t : Text) : Text := (trivia t.length t).2

theorem snd_trivia {fuel : Nat} {t : Text} (h : t.length ≤ fuel) : (trivia fuel t).2 = skipped t := by
  rw [trivia_eq_of_le h (Nat.le_refl t.length), skipped]

theorem skipped_dropWhile {c : Char} (h : isBlank c) (cs : Text) :
    skipped (c :: cs) = skipped (cs.dropWhile isBlank) := by
  rw [skipped, List.length_cons, trivia, if_pos h]
  exact snd_trivia (Nat.le_of_lt_succ (length_dropWhile_blank c cs))

theorem skipped_cons {c : Char} (h : isBlank c) (cs : Text) : skipped (c :: cs) = skipped cs := by
  rw [skipped_dropWhile h]
  cases cs with
  | nil => rfl
  | cons d ds =>
    rw [List.dropWhile_cons]
    split
    · rename_i hd
      exact (skipped_dropWhile hd ds).symm
    · rfl

theorem skipped_append {w : Text} (h : ∀ c ∈ w, isBlank c) (t : Text) : skipped (w ++ t) = skipped t := by
  induction w with
  | nil => rfl
  | cons c cs ih =>
    obtain ⟨hFirst, hRest⟩ := List.forall_mem_cons.mp h
    rw [List.cons_append, skipped_cons hFirst, ih hRest]

section

variable {c : Char} {cs : Text} (hBlank : isBlank c = false)
include hBlank

theorem skipped_comment {comment behind : Text} (h : comment? (c :: cs) = some (comment, behind)) :
    skipped (c :: cs) = skipped behind := by
  rw [skipped, List.length_cons, trivia, if_neg (Bool.eq_false_iff.mp hBlank), h]
  exact snd_trivia (Nat.le_of_lt_succ (comment?_length h))

theorem skipped_token (h : comment? (c :: cs) = none) : skipped (c :: cs) = c :: cs := by
  rw [skipped, List.length_cons, trivia, if_neg (Bool.eq_false_iff.mp hBlank), h]

end

theorem skipped_length_le (t : Text) : (skipped t).length ≤ t.length := by
  have hText := congrArg List.length (trivia_append t.length t)
  rw [List.length_append] at hText
  exact Nat.le_trans (Nat.le_add_left _ _) (Nat.le_of_eq hText)

theorem symbol_text_ne_nil (s : Symbol) : s.text ≠ [] := by
  cases s with
  | assignOp operator => exact List.append_ne_nil_of_right_ne_nil operator (List.cons_ne_nil _ _)
  | _ => exact List.cons_ne_nil _ _

theorem token?_ne_nil {t rest : Text} {token : Token} (h : token? t = some (token, rest)) : token.text ≠ [] := by
  cases tokenAt_of_token? h with
  | keyword _ hKeyword =>
    rw [Token.text, Keyword.text_of_ofText? hKeyword]
    exact List.cons_ne_nil _ _
  | word => exact List.cons_ne_nil _ _
  | rune hSome => exact fun hNil => (List.take_eq_nil_iff.mp hNil).elim hSome (List.cons_ne_nil _ _)
  | number hStart hSome =>
    obtain ⟨c, cs, rfl, -⟩ := hStart
    exact fun hNil => (List.take_eq_nil_iff.mp hNil).elim hSome (List.cons_ne_nil c cs)
  | string hLiteral =>
    obtain ⟨inner, rfl⟩ := exists_of_string? hLiteral
    exact List.cons_ne_nil _ _
  | rawString hLiteral =>
    obtain ⟨-, inner, rfl, -⟩ := rawString?_eq_some_iff.mp hLiteral
    exact List.cons_ne_nil _ _
  | symbol => exact symbol_text_ne_nil _

theorem token?_length {t rest : Text} {token : Token} (h : token? t = some (token, rest)) :
    rest.length < t.length := by
  rw [← token?_append h, List.length_append]
  have := List.length_pos_iff.mpr (token?_ne_nil h)
  omega

def tokensWithin (fuel : Nat) (t : Text) : Option (List Token) := (lexemesWithin fuel t).map (List.map Lexeme.token)

theorem tokensWithin_end {t : Text} (h : skipped t = []) {fuel : Nat} (hFuel : t.length < fuel) :
    tokensWithin fuel t = some [.eof] := by
  obtain ⟨fuel, rfl⟩ := Nat.exists_eq_add_of_le' (Nat.succ_le_of_lt (Nat.lt_of_le_of_lt (Nat.zero_le _) hFuel))
  have hSkipped : (trivia (fuel + 1) t).2 = [] := by rw [snd_trivia (Nat.le_of_lt hFuel), h]
  rw [tokensWithin, lexemesWithin]
  split
  · rfl
  · rename_i before rest hNone hTrivia
    rw [hTrivia] at hSkipped
    exact (hNone hSkipped).elim

theorem tokensWithin_cons {t : Text} (h : skipped t ≠ []) {fuel : Nat} (hFuel : t.length ≤ fuel + 1) :
    tokensWithin (fuel + 1) t =
      (token? (skipped t)).bind fun p => (tokensWithin fuel p.2).map (p.1 :: ·) := by
  have hSkipped := snd_trivia hFuel
  rw [tokensWithin, lexemesWithin]
  split
  · rename_i before hTrivia
    rw [hTrivia] at hSkipped
    exact (h hSkipped.symm).elim
  · rename_i before rest hNone hTrivia
    rw [hTrivia] at hSkipped
    rw [← hSkipped]
    cases token? rest with
    | none => rfl
    | some p =>
      simp only [Option.bind_eq_bind, Option.bind_some, tokensWithin]
      cases lexemesWithin fuel p.2 <;> rfl

/-- What has been read: the end, or a token and then what stands behind it. -/
theorem tokensWithin_eq_some {fuel : Nat} {t : Text} {ts : List Token} (h : tokensWithin (fuel + 1) t = some ts)
    (hFuel : t.length ≤ fuel) : skipped t = [] ∧ ts = [.eof] ∨ ∃ c cs token rest more, skipped t = c :: cs ∧
      token? (c :: cs) = some (token, rest) ∧ rest.length < fuel ∧ tokensWithin fuel rest = some more ∧
      ts = token :: more := by
  cases hSkipped : skipped t with
  | nil =>
    rw [tokensWithin_end hSkipped (Nat.lt_succ_of_le hFuel)] at h
    cases h
    exact .inl ⟨rfl, rfl⟩
  | cons c cs =>
    have hNe : skipped t ≠ [] := hSkipped ▸ List.cons_ne_nil c cs
    rw [tokensWithin_cons hNe (Nat.le_succ_of_le hFuel), hSkipped] at h
    obtain ⟨⟨token, rest⟩, hToken, hMap⟩ := Option.bind_eq_some_iff.mp h
    obtain ⟨more, hMore, rfl⟩ := Option.map_eq_some_iff.mp hMap
    have hLength := skipped_length_le t
    have hShorter := token?_length hToken
    rw [hSkipped] at hLength
    exact .inr ⟨c, cs, token, rest, more, rfl, hToken, by omega, hMore, rfl⟩

theorem exists_token? {fuel : Nat} {t : Text} {ts : List Token} (h : tokensWithin fuel t = some ts)
    (hFuel : t.length < fuel) {c : Char} {cs : Text} (hSkipped : skipped t = c :: cs) :
    ∃ token rest, token? (c :: cs) = some (token, rest) := by
  obtain ⟨fuel, rfl⟩ := Nat.exists_eq_add_of_le' (Nat.succ_le_of_lt (Nat.lt_of_le_of_lt (Nat.zero_le _) hFuel))
  rcases tokensWithin_eq_some h (Nat.le_of_lt_succ hFuel) with ⟨hEnd, -⟩ | ⟨d, ds, token, rest, -, hFound, hToken, -⟩
  · rw [hEnd] at hSkipped
    cases hSkipped
  · rw [← hSkipped, hFound]
    exact ⟨token, rest, hToken⟩

theorem visible_of_tokensWithin {fuel : Nat} {t : Text} {ts : List Token} (h : tokensWithin fuel t = some ts)
    (hFuel : t.length < fuel) : ∀ c ∈ (skipped t).head?, Text.isWhite c = false := by
  intro c hc
  obtain ⟨cs, hSkipped⟩ := List.head?_eq_some_iff.mp hc
  obtain ⟨token, rest, hToken⟩ := exists_token? h hFuel hSkipped
  exact visible_of_token? hToken

/-! ## The mark for the byte order -/

theorem mark_eq {c : Char} (h : c.toNat = 0xFEFF) : c = '\uFEFF' := Char.toNat_inj.mp h

theorem withoutMark_cons {c : Char} (h : c ≠ '\uFEFF') (cs : Text) : withoutMark (c :: cs) = c :: cs := by
  rw [withoutMark, if_neg]
  rw [beq_iff_eq]
  exact mt mark_eq h

theorem token?_mark (cs : Text) : token? ('\uFEFF' :: cs) = none := by
  rw [token?, if_neg (by decide +kernel), if_neg (by decide), if_neg (by decide), if_neg (by decide)]
  rfl

end GoCommands.Go.Lexer
