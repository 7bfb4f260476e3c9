import GoCommands.Proofs.Constraint.Atom
import GoCommands.Constraint.Parser

/-! # Spellings of token sequences

A text spells tokens if it is made of them in their order with white space anywhere between. No tag stands
directly behind a tag, since the two would be one.
-/

namespace GoCommands.Constraint

/-- The token is an operator or a parenthesis. -/
def Token.IsSign (token : Token) : Prop := ∀ name, token ≠ .tag name

inductive Spells : Text → List Token → Prop
  | nil : Spells [] []
  | white {c : Char} {t : Text} {ts : List Token} : Text.isWhite c → Spells t ts → Spells (c :: t) ts
  | sign {token : Token} {t : Text} {ts : List Token} : token.IsSign → Spells t ts →
    Spells (token.render ++ t) (token :: ts)
  | tag {name t : Text} {ts : List Token} : IsAtom name → (∀ c ∈ t.head?, ¬ isTagChar c) → Spells t ts →
    Spells (name ++ t) (.tag name :: ts)

theorem map_cons_eq_ok_iff {token : Token} {read : Except SyntaxError (List Token)} {ts : List Token} :
    (token :: ·) <$> read = .ok ts ↔ ∃ rest, read = .ok rest ∧ ts = token :: rest := by
  cases read with
  | error cause => exact iff_of_false (fun h => by cases h) fun ⟨_, h, _⟩ => by cases h
  | ok rest => simp [Functor.map, Except.map, @eq_comm _ ts]

/-- A sign and what is read behind it. -/
theorem spells_of_map_cons (token : Token) {read : Except SyntaxError (List Token)} {t : Text} {ts : List Token}
    (hSign : token.IsSign) (hRead : ∀ {rest}, read = .ok rest → Spells t rest)
    (h : (token :: ·) <$> read = .ok ts) : Spells (token.render ++ t) ts := by
  obtain ⟨rest, hRest, rfl⟩ := map_cons_eq_ok_iff.mp h
  exact .sign hSign (hRead hRest)

theorem spells_of_tokens {offset : Nat} {t : Text} {ts : List Token} (h : tokens offset t = .ok ts) :
    Spells t ts := by
  fun_induction tokens offset t generalizing ts with
  | case1 offset =>
    cases h
    exact .nil
  | case2 offset c cs hWhite ih => exact .white hWhite (ih h)
  | case3 offset c cs _ hOpen ih =>
    obtain rfl := beq_iff_eq.mp hOpen
    exact spells_of_map_cons .open nofun ih h
  | case4 offset c cs _ _ hClose ih =>
    obtain rfl := beq_iff_eq.mp hClose
    exact spells_of_map_cons .close nofun ih h
  | case5 offset c cs _ _ _ hNot ih =>
    obtain rfl := beq_iff_eq.mp hNot
    exact spells_of_map_cons .not nofun ih h
  | case6 offset c _ _ _ _ hOperator d cs hDouble ih =>
    obtain rfl := beq_iff_eq.mp hDouble
    rw [Bool.or_eq_true, beq_iff_eq, beq_iff_eq] at hOperator
    rcases hOperator with rfl | rfl
    · exact spells_of_map_cons .and nofun ih h
    · exact spells_of_map_cons .or nofun ih h
  | case7 => cases h
  | case8 => cases h
  | case9 offset c cs _ _ _ _ _ hTag =>
    rename_i ih
    obtain ⟨rest, hRest, rfl⟩ := map_cons_eq_ok_iff.mp h
    have hSplit : c :: cs = (c :: cs.takeWhile isTagChar) ++ cs.dropWhile isTagChar := by
      rw [List.cons_append, List.takeWhile_append_dropWhile]
    rw [hSplit]
    refine .tag ⟨List.cons_ne_nil _ _, ?_⟩ (fun d hd => ?_) (ih hRest)
    · exact List.forall_mem_cons.mpr ⟨hTag, fun d hd => List.mem_takeWhile_imp hd⟩
    · have hStop := List.head?_dropWhile_not isTagChar cs
      rw [Option.mem_def.mp hd] at hStop
      exact Bool.eq_false_iff.mp hStop
  | case10 => cases h

theorem tokens_white {c : Char} (h : Text.isWhite c) (offset : Nat) (t : Text) :
    tokens offset (c :: t) = tokens (offset + c.utf8Size) t := by
  rw [tokens.eq_def]
  exact if_pos h

theorem tokens_sign {token : Token} (h : token.IsSign) (offset : Nat) (t : Text) :
    tokens offset (token.render ++ t) = (token :: ·) <$> tokens (offset + token.render.length) t := by
  cases token with
  | tag name => exact absurd rfl (h name)
  | not | and | or | «open» | close =>
    rw [tokens.eq_def]
    rfl

theorem tokens_tag {name t : Text} (hName : IsAtom name) (hEnd : ∀ c ∈ t.head?, ¬ isTagChar c) (offset : Nat) :
    tokens offset (name ++ t) = (Token.tag name :: ·) <$> tokens (offset + Text.byteSize name) t := by
  obtain ⟨c, cs, rfl⟩ := List.exists_cons_of_ne_nil hName.nonempty
  obtain ⟨hFirst, hRest⟩ := List.forall_mem_cons.mp hName.tagChars
  obtain ⟨hOpen, hClose, hNot, hAnd, hOr⟩ := not_operator_of_isTagChar hFirst
  have hWhite : ¬ Text.isWhite c := Text.not_isWhite_of_isTagChar hFirst
  obtain ⟨hTake, hDrop⟩ := Text.cut_append hRest fun c hc => Bool.eq_false_iff.mpr (hEnd c hc)
  rw [List.cons_append, tokens.eq_def]
  simp only [hWhite, hFirst, hTake, hDrop, beq_iff_eq, hOpen, hClose, hNot, hAnd, hOr, Bool.or_eq_true,
    or_self, if_false, if_true, Bool.false_eq_true]

/-- A text is read as the tokens that it spells, and as no others. -/
theorem tokens_eq_ok_iff (offset : Nat) (t : Text) (ts : List Token) :
    tokens offset t = .ok ts ↔ Spells t ts := by
  refine ⟨spells_of_tokens, fun h => ?_⟩
  induction h generalizing offset with
  | nil => exact tokens.eq_1 offset
  | white hWhite _ ih => rw [tokens_white hWhite, ih]
  | sign hSign _ ih =>
    rw [tokens_sign hSign, ih]
    rfl
  | tag hName hEnd _ ih =>
    rw [tokens_tag hName hEnd, ih]
    rfl

end GoCommands.Constraint
