import GoCommands.Proofs.Constraint.Derivation

/-! # Constraints that are read back

Every binary operator is written in parentheses, so the tokens of a constraint are derived as a negation and can
stand as an operand anywhere. A constraint is read back from its own text exactly if its tags are atoms, and the
tags of what was read are.
-/

namespace GoCommands.Constraint

def names : Constraint → List Text
  | tag name => [name]
  | not e => e.names
  | and l r => l.names ++ r.names
  | or l r => l.names ++ r.names

/-- The tokens that a constraint is written with. -/
def writtenTokens : Constraint → List Token
  | tag name => [.tag name]
  | not e => .not :: e.writtenTokens
  | and l r => .open :: (l.writtenTokens ++ .and :: r.writtenTokens) ++ [.close]
  | or l r => .open :: (l.writtenTokens ++ .or :: r.writtenTokens) ++ [.close]

theorem derives_writtenTokens (e : Constraint) : Derives .negation e.writtenTokens e := by
  induction e with
  | tag name => exact .atom (.tag name)
  | not e ih => exact .not ih
  | and l r ihLeft ihRight => exact .atom (.parens (.conjunction (.and (.negation ihLeft) ihRight)))
  | or l r ihLeft ihRight => exact .atom (.parens (.or (.conjunction (.negation ihLeft)) (.negation ihRight)))

/-- The text spells the tokens in front of any text that does not go on with a tag. -/
def SpellsBefore (front : Text) (ts : List Token) : Prop :=
  ∀ t us, (∀ c ∈ t.head?, ¬ isTagChar c) → Spells t us → Spells (front ++ t) (ts ++ us)

theorem spellsBefore_binary (operator : Token) (hSign : operator.IsSign) {left right : Text} {ts us : List Token}
    (hLeft : SpellsBefore left ts) (hRight : SpellsBefore right us) :
    SpellsBefore ('(' :: left ++ (' ' :: operator.render ++ [' ']) ++ right ++ [')'])
      (.open :: (ts ++ operator :: us) ++ [.close]) := by
  intro t vs _ hRest
  have hClose : Spells (Token.close.render ++ t) (.close :: vs) := .sign nofun hRest
  have hOperand : Spells (right ++ ')' :: t) (us ++ .close :: vs) :=
    hRight _ _ (fun c hc => by cases hc; decide) hClose
  have hOperator : Spells (' ' :: (operator.render ++ ' ' :: (right ++ ')' :: t))) (operator :: (us ++ .close :: vs)) :=
    .white (by decide) (.sign hSign (.white (by decide) hOperand))
  have hBoth := hLeft _ _ (fun c hc => by cases hc; decide) hOperator
  have hWhole : Spells (Token.open.render ++ _) _ := .sign nofun hBoth
  simpa [Token.render] using hWhole

theorem spellsBefore_render {e : Constraint} (h : ∀ name ∈ e.names, IsAtom name) :
    SpellsBefore e.render e.writtenTokens := by
  induction e with
  | tag name => exact fun t us hEnd hRest => .tag (h name List.mem_cons_self) hEnd hRest
  | not e ih =>
    intro t us hEnd hRest
    have hSign : Token.not.IsSign := nofun
    exact .sign hSign (ih h t us hEnd hRest)
  | and l r ihLeft ihRight =>
    rw [names, List.forall_mem_append] at h
    exact spellsBefore_binary .and nofun (ihLeft h.1) (ihRight h.2)
  | or l r ihLeft ihRight =>
    rw [names, List.forall_mem_append] at h
    exact spellsBefore_binary .or nofun (ihLeft h.1) (ihRight h.2)

theorem isWritten_render {e : Constraint} (h : ∀ name ∈ e.names, IsAtom name) : IsWritten e.render e := by
  have hSpells := spellsBefore_render h [] [] (fun _ hc => nomatch hc) .nil
  rw [List.append_nil, List.append_nil] at hSpells
  exact ⟨e.writtenTokens, hSpells, .conjunction (.negation (derives_writtenTokens e))⟩

theorem Derives.mem_of_mem_names {rule : Rule} {ts : List Token} {e : Constraint} (h : Derives rule ts e)
    {name : Text} (hName : name ∈ e.names) : .tag name ∈ ts := by
  induction h with
  | or _ _ ihLeft ihRight | and _ _ ihLeft ihRight =>
    rcases List.mem_append.mp hName with hName | hName
    · exact List.mem_append_left _ (ihLeft hName)
    · exact List.mem_append_right _ (List.mem_cons_of_mem _ (ihRight hName))
  | conjunction _ ih | negation _ ih | atom _ ih => exact ih hName
  | not _ ih => exact List.mem_cons_of_mem _ (ih hName)
  | tag =>
    rw [List.mem_singleton.mp hName]
    exact List.mem_cons_self
  | parens _ ih => exact List.mem_append_left _ (List.mem_cons_of_mem _ (ih hName))

theorem Spells.isAtom {t : Text} {ts : List Token} (h : Spells t ts) {name : Text} (hTag : .tag name ∈ ts) :
    IsAtom name := by
  induction h with
  | nil => cases hTag
  | white _ _ ih => exact ih hTag
  | sign hSign _ ih =>
    rcases List.mem_cons.mp hTag with rfl | hTag
    · exact absurd rfl (hSign name)
    · exact ih hTag
  | tag hAtom _ _ ih =>
    rcases List.mem_cons.mp hTag with hEq | hTag
    · cases hEq
      exact hAtom
    · exact ih hTag

theorem IsWritten.isAtom {t : Text} {e : Constraint} (h : IsWritten t e) : ∀ name ∈ e.names, IsAtom name := by
  obtain ⟨ts, hSpells, hDerives⟩ := h
  exact fun name hName => hSpells.isAtom (hDerives.mem_of_mem_names hName)

/-- A constraint is read back from what it is written as exactly if its tags are atoms. One that was read from any
text is read back. -/
theorem parse_render (e : Constraint) :
    (parse e.render = .ok e ↔ ∀ name ∈ e.names, IsAtom name) ∧ ∀ t, parse t = .ok e → parse e.render = .ok e := by
  have hBack : parse e.render = .ok e ↔ ∀ name ∈ e.names, IsAtom name := by
    rw [parse_eq_ok_iff_isWritten]
    exact ⟨IsWritten.isAtom, isWritten_render⟩
  refine ⟨hBack, fun t hRead => hBack.mpr ?_⟩
  exact IsWritten.isAtom ((parse_eq_ok_iff_isWritten t e).mp hRead)

/-- Operands of all kinds, with no parentheses but those that are needed. -/
def mixedText : Text := "!!go1.21&&x || !(a || b_c) && d".toList

def mixed : Constraint :=
  .or (.and (.not (.not (.tag "go1.21".toList))) (.tag ['x']))
    (.and (.not (.or (.tag ['a']) (.tag "b_c".toList))) (.tag ['d']))

theorem parse_render_mixed : parse mixedText = .ok mixed ∧ parse mixed.render = .ok mixed := by
  have hRead : parse mixedText = .ok mixed := by decide +kernel
  exact ⟨hRead, (parse_render mixed).2 mixedText hRead⟩

end GoCommands.Constraint
