import GoCommands.Go.Grammar.Expressions
import GoCommands.Proofs.Go.Commented.Types

/-! # Readers of expressions do not see comments -/

namespace GoCommands.Go.Grammar

open Reader

variable {c : Text} {g : Grammar} {input input' rest rest' : Input}

theorem behindBraces_commented (h : Input.Commented c input input') (depth : Nat) :
    Input.Commented c (behindBraces depth input) (behindBraces depth input') := by
  induction h generalizing depth with
  | nil => exact .nil
  | @cons l l' rest rest' hl hRest ih =>
    rw [behindBraces, behindBraces, hl.token]
    split
    · exact ih _
    · split
      · exact hRest
      · exact ih _
    · exact ih _

theorem tokens_eq (h : Input.Commented c input input') : input'.map Lexeme.token = input.map Lexeme.token := by
  induction h with
  | nil => rfl
  | cons hl _ ih => rw [List.map_cons, List.map_cons, hl.token, ih]

theorem isTypeGuard_iff (input : Input) : isTypeGuard input ↔
    (input.map Lexeme.token).take 3 = [.symbol .dot, .symbol .parenOpen, .keyword .type] := by
  constructor
  · intro h
    unfold isTypeGuard at h
    split at h
    · rfl
    · cases h
  · intro h
    rcases input with _ | ⟨⟨_, _⟩, _ | ⟨⟨_, _⟩, _ | ⟨⟨_, _⟩, _⟩⟩⟩ <;> cases h
    rfl

theorem isTypeGuard_eq (h : Input.Commented c input input') : isTypeGuard input' = isTypeGuard input := by
  rw [Bool.eq_iff_iff, isTypeGuard_iff, isTypeGuard_iff, tokens_eq h]

theorem singleArguments_eq (h : Input.Commented c input input') (depth : Nat) :
    singleArguments depth input' = singleArguments depth input := by
  induction h generalizing depth with
  | nil => rfl
  | cons hl _ ih => simp only [singleArguments, hl.token, ih]

theorem typePhrase_eq (literalType : LiteralType) (h : Input.Commented c input input')
    (hRest : Input.Commented c rest rest') :
    typePhrase literalType input' rest' = typePhrase literalType input rest := by
  rw [typePhrase, typePhrase, singleArguments_eq (List.forall₂_reverse_iff.mpr (consumed_commented h hRest))]

theorem afterUnary_commented (h : Input.Commented c input input') :
    Input.Commented c (afterUnary input) (afterUnary input') := by
  induction h with
  | nil => exact .nil
  | cons hl hRest ih =>
    rw [afterUnary, afterUnary, hl.token]
    split
    · split
      · exact ih
      · exact .cons hl hRest
    · exact .cons hl hRest

theorem all_single_eq {α : Type} {R : α → α → Prop} {lists lists' : List (List α)}
    (h : List.Forall₂ (List.Forall₂ R) lists lists') :
    (lists'.all fun list => list.length == 1) = lists.all fun list => list.length == 1 := by
  induction h with
  | nil => rfl
  | cons hList _ ih => rw [List.all_cons, List.all_cons, hList.length_eq, ih]

variable (hG : g.Blind c)
include hG

theorem expressions_blind (f : Follow) : Reader.Blind c Eq (g.expressions f) := by
  intro input input' h
  rw [expressions, expressions, h.length_eq]
  exact (separated_blind (hG.expr f) .comma f.line _ h).mono fun _ _ hList => List.forall₂_eq_eq_eq ▸ hList

theorem argument_blind : Reader.Blind c Eq g.argument := fun _ _ h =>
  (hG.expr .inside h).bind fun _ hRest => .some ⟨rfl, getD_symbol_commented hRest .ellipsis⟩

theorem typedArguments_alike (h : Input.Commented c input input') :
    Option.Rel (Input.Commented c) (g.typedArguments input) (g.typedArguments input') := by
  refine rel_bind (symbol_alike h .parenOpen) fun {rest rest'} hRest => ?_
  refine rel_elim (symbol_alike hRest .parenClose) ?_ fun hBehind => ?_
  · refine (hG.type false hRest).bind fun {_ _ rest rest'} _ hRest => ?_
    dsimp only
    refine rel_elim (symbol_alike hRest .parenClose) ?_ fun hBehind => ?_
    · refine rel_bind (symbol_alike hRest .comma) fun {rest rest'} hRest => ?_
      rw [hRest.length_eq]
      refine rel_elim (symbol_alike hRest .parenClose) ?_ fun hBehind => ?_
      · exact (items_blind (hG.expr .inside) .parenClose _ hRest).bind fun _ hBehind => .some hBehind
      · exact .some hBehind
    · exact .some hBehind
  · exact .some hBehind

theorem slice_alike (h : Input.Commented c input input') :
    Option.Rel (Input.Commented c) (indexBody.slice g input) (indexBody.slice g input') := by
  refine rel_bind (symbol_alike h .colon) fun {rest rest'} hRest => ?_
  refine rel_elim (symbol_alike hRest .bracketClose) ?_ fun hBehind => ?_
  · refine (hG.expr .inside hRest).bind fun {_ _ rest rest'} _ hRest => ?_
    dsimp only
    refine rel_elim (symbol_alike hRest .bracketClose) ?_ fun hBehind => ?_
    · refine rel_bind (symbol_alike hRest .colon) fun hRest => ?_
      exact (hG.expr .inside hRest).bind fun _ hRest => symbol_alike hRest .bracketClose
    · exact .some hBehind
  · exact .some hBehind

theorem indexBody_alike (h : Input.Commented c input input') :
    Option.Rel (Input.Commented c) (g.indexBody input) (g.indexBody input') := by
  rw [indexBody, indexBody]
  refine (hG.expr .inside h).elim ?_ fun {_ _ rest rest'} _ hRest => ?_
  · exact slice_alike hG h
  · dsimp only
    refine rel_elim (symbol_alike hRest .bracketClose) ?_ fun hBehind => ?_
    · exact slice_alike hG hRest
    · exact .some hBehind

theorem onlyLiteral_eq (h : Input.Commented c input input') : g.onlyLiteral input' = g.onlyLiteral input := by
  rw [onlyLiteral, onlyLiteral, isSome_eq_of_rel (hG.literalValue h), ← Option.not_isSome, ← Option.not_isSome,
    isSome_eq_of_rel (hG.block h)]

theorem literalBeforeBody_eq (h : Input.Commented c input input') :
    g.literalBeforeBody input' = g.literalBeforeBody input := by
  rw [literalBeforeBody, literalBeforeBody, ahead_eq (behindBraces_commented h 0), onlyLiteral_eq hG h]

theorem opensLiteral_eq (f : Follow) (phrase : Phrase) (h : Input.Commented c input input') :
    g.opensLiteral f phrase input' = g.opensLiteral f phrase input := by
  rw [opensLiteral, opensLiteral, literalBeforeBody_eq hG h]

theorem literalAhead_eq (f : Follow) (phrase : Phrase) (token : Option Token) (h : Input.Commented c input input') :
    g.literalAhead f phrase token input' = g.literalAhead f phrase token input := by
  cases token with
  | none => rw [literalAhead, literalAhead, isAhead_eq h, onlyLiteral_eq hG h]
  | some token => rw [literalAhead, literalAhead, opensLiteral_eq hG f phrase h]

theorem selectorBody_blind (phrase : Phrase) : Reader.Blind c Eq (g.selectorBody phrase) := by
  intro input input' h
  rw [selectorBody, selectorBody]
  refine (word_alike h).elim ?_ fun _ hRest => ?_
  · refine rel_bind (symbol_alike h .parenOpen) fun hRest => ?_
    refine (hG.type false hRest).bind fun _ hRest => ?_
    exact rel_bind (symbol_alike hRest .parenClose) fun hBehind => .some ⟨rfl, hBehind⟩
  · exact .some ⟨rfl, hRest⟩

theorem bracketSuffix_blind (phrase : Phrase) : Reader.Blind c Eq (g.bracketSuffix phrase) := by
  intro input input' h
  refine rel_bind (symbol_alike h .bracketOpen) fun {rest rest'} hRest => ?_
  have hIndex : Option.Rel (Input.Commented c) (if phrase.value then g.indexBody rest else .none)
      (if phrase.value then g.indexBody rest' else .none) := rel_ite rfl (indexBody_alike hG hRest) .none
  refine rel_elim hIndex ?_ fun hBehind => ?_
  · refine (typeArguments_blind hG h).bind fun hArguments hBehind => ?_
    dsimp only
    rw [all_single_eq hArguments, isAhead_eq hBehind]
    exact rel_ite rfl (.some ⟨rfl, hBehind⟩) (rel_ite rfl (.some ⟨rfl, hBehind⟩) .none)
  · dsimp only
    rw [isAhead_eq hBehind, isSome_eq_of_rel (typeArguments_blind hG h)]
    exact .some ⟨rfl, hBehind⟩

theorem callSuffix_blind (phrase : Phrase) : Reader.Blind c Eq (g.callSuffix phrase) := by
  intro input input' h
  refine rel_ite rfl ?_ ?_
  · exact (bracketed?_blind (argument_blind hG) .parenOpen .parenClose false h).bind fun _ hRest => .some ⟨rfl, hRest⟩
  · refine rel_bind (symbol_alike h .parenOpen) fun hRest => ?_
    refine (hG.expr .inside hRest).bind fun _ hRest => ?_
    refine rel_bind (symbol_alike (getD_symbol_commented hRest .comma) .parenClose) fun hBehind => ?_
    exact .some ⟨rfl, hBehind⟩

theorem suffixes_blind (f : Follow) (fuel : Nat) (phrase : Phrase) : Reader.Blind c Eq (g.suffixes f fuel phrase) := by
  induction fuel generalizing phrase with
  | zero => exact fun _ _ _ => .none
  | succ fuel ih =>
    intro input input' h
    have hStop : Alike c Eq (if phrase.value then some (phrase, input) else .none)
        (if phrase.value then some (phrase, input') else .none) := rel_ite rfl (.some ⟨rfl, h⟩) .none
    have hNext : ∀ {x y : Option (Phrase × Input)}, Alike c Eq x y →
        Alike c Eq (x.bind fun r => g.suffixes f fuel r.1 r.2) (y.bind fun r => g.suffixes f fuel r.1 r.2) := by
      intro x y hRead
      refine hRead.bind ?_
      rintro phrase _ rest rest' rfl hRest
      exact ih phrase hRest
    rw [suffixes, suffixes, ahead_eq h]
    split
    · rw [isTypeGuard_eq h]
      refine rel_ite rfl hStop (rel_bind (symbol_alike h .dot) fun hRest => ?_)
      exact hNext (selectorBody_blind hG phrase hRest)
    · exact hNext (bracketSuffix_blind hG phrase h)
    · exact hNext (callSuffix_blind hG phrase h)
    · refine rel_ite (literalAhead_eq hG f phrase _ h) ?_ hStop
      exact (hG.literalValue h).bind fun _ hRest => ih .plain hRest

theorem functionOperand_blind (f : Follow) : Reader.Blind c Eq (g.functionOperand f) := by
  intro input input' h
  refine (signature_blind hG false h).bind fun {_ _ rest rest'} _ hRest => ?_
  dsimp only
  rw [typePhrase_eq .none h hRest, literalBeforeBody_eq hG hRest, isAhead_eq hRest]
  refine rel_ite rfl ?_ (.some ⟨rfl, hRest⟩)
  exact (hG.block hRest).bind fun _ hBehind => .some ⟨rfl, hBehind⟩

theorem negatedOperand_blind : Reader.Blind c Eq g.negatedOperand := by
  intro input input' h
  refine (hG.type false h).bind fun _ hRest => .some ⟨?_, hRest⟩
  rw [endsInArguments_eq h hRest, typePhrase_eq _ h hRest]

theorem countedArray_blind : Reader.Blind c Eq g.countedArray := by
  intro input input' h
  refine rel_bind (symbol_alike h .bracketOpen) fun hRest => ?_
  refine rel_bind (symbol_alike hRest .ellipsis) fun hRest => ?_
  refine rel_bind (symbol_alike hRest .bracketClose) fun hRest => ?_
  refine (hG.type false hRest).bind fun _ hRest => ?_
  exact (hG.literalValue hRest).bind fun _ hBehind => .some ⟨rfl, hBehind⟩

theorem typeOperand_blind (literalType : LiteralType) : Reader.Blind c Eq (g.typeOperand literalType) := by
  intro input input' h
  exact (hG.type false h).bind fun _ hRest => .some ⟨(typePhrase_eq literalType h hRest).symm, hRest⟩

theorem parenthesizedType_alike (h : Input.Commented c input input') :
    Option.Rel (Input.Commented c) (g.parenthesizedType input) (g.parenthesizedType input') :=
  (hG.type false h).bind fun _ hRest => symbol_alike hRest .parenClose

theorem parenthesized_blind : Reader.Blind c Eq g.parenthesized := by
  intro input input' h
  rw [parenthesized, parenthesized]
  have hExpr : Option.Rel (Input.Commented c) ((g.expr .inside input).bind fun r => symbol .parenClose r.2)
      ((g.expr .inside input').bind fun r => symbol .parenClose r.2) :=
    (hG.expr .inside h).bind fun _ hRest => symbol_alike hRest .parenClose
  refine rel_elim hExpr ?_ fun hBehind => ?_
  · exact rel_map (parenthesizedType_alike hG h) fun _ _ hRest => ⟨rfl, hRest⟩
  · dsimp only
    rw [isAhead_eq hBehind, isSome_eq_of_rel (parenthesizedType_alike hG h)]
    exact .some ⟨rfl, hBehind⟩

theorem operand_blind (f : Follow) : Reader.Blind c Eq (g.operand f) := by
  intro input input' h
  have hInput := h
  cases h with
  | nil => exact .none
  | cons hl hRest =>
    rw [operand, operand, hl.token]
    split
    · refine rel_ite (by rw [isAhead_eq hRest]) ?_ (rel_ite rfl (.some ⟨rfl, hRest⟩) (.some ⟨rfl, hRest⟩))
      exact rel_bind (typedArguments_alike hG hRest) fun hBehind => .some ⟨rfl, hBehind⟩
    · exact .some ⟨rfl, hRest⟩
    · exact .some ⟨rfl, hRest⟩
    · exact .some ⟨rfl, hRest⟩
    · exact .some ⟨rfl, hRest⟩
    · exact functionOperand_blind hG f hRest
    · exact typeOperand_blind hG _ hInput
    · exact typeOperand_blind hG _ hInput
    · exact typeOperand_blind hG _ hInput
    · exact typeOperand_blind hG _ hInput
    · exact negatedOperand_blind hG hRest
    · exact parenthesized_blind hG hRest
    · exact rel_ite (isAhead_eq hRest .ellipsis false) (countedArray_blind hG hInput) (typeOperand_blind hG _ hInput)
    · exact .none

theorem primary_blind (f : Follow) : Reader.Blind c Eq (g.primary f) := by
  intro input input' h
  refine (operand_blind hG f h).bind ?_
  rintro phrase _ rest rest' rfl hRest
  dsimp only
  rw [hRest.length_eq]
  exact suffixes_blind hG f _ phrase hRest

theorem binaryTail_alike (f : Follow) (fuel : Nat) (h : Input.Commented c input input') :
    Option.Rel (Input.Commented c) (g.binaryTail f fuel input) (g.binaryTail f fuel input') := by
  induction fuel generalizing input input' with
  | zero => exact .none
  | succ fuel ih =>
    rw [binaryTail, binaryTail, ahead_eq h]
    split
    · refine rel_ite rfl ?_ (.some h)
      exact (primary_blind hG f (afterUnary_commented (drop_commented h 1))).bind fun _ hRest => ih hRest
    · exact .some h

theorem exprStep_blind (f : Follow) : Reader.Blind c Eq (g.exprStep f) := by
  intro input input' h
  have hOperand := afterUnary_commented h
  refine (primary_blind hG f hOperand).bind ?_
  rintro phrase _ rest rest' rfl hRest
  dsimp only
  rw [hRest.length_eq, hOperand.length_eq, h.length_eq]
  refine rel_bind (binaryTail_alike hG f _ hRest) fun hBehind => ?_
  rw [hBehind.length_eq]
  cases phrase.string with
  | none => exact .some ⟨rfl, hBehind⟩
  | some literal => exact .some ⟨rfl, hBehind⟩

theorem literalElement_blind : Reader.Blind c Eq g.literalElement := by
  intro input input' h
  refine rel_ite (isAhead_eq h .braceOpen false) (hG.literalValue h) ?_
  exact (hG.expr .inside h).bind fun _ hRest => .some ⟨rfl, hRest⟩

theorem keyedElement_blind : Reader.Blind c Eq g.keyedElement := by
  intro input input' h
  refine (literalElement_blind hG h).bind fun _ hRest => ?_
  refine rel_ite (isAhead_eq hRest .colon false) ?_ (.some ⟨rfl, hRest⟩)
  exact rel_bind (symbol_alike hRest .colon) fun hNext => literalElement_blind hG hNext

theorem literalValueStep_blind : Reader.Blind c Eq g.literalValueStep := fun _ _ h =>
  (bracketed?_blind (keyedElement_blind hG) .braceOpen .braceClose true h).bind fun _ hRest => .some ⟨rfl, hRest⟩

end GoCommands.Go.Grammar
