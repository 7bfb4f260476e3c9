import GoCommands.Go.Grammar.Expressions
import GoCommands.Proofs.Go.Forward.Types

/-! # Readers of expressions go forward -/

namespace GoCommands.Go.Grammar

open Reader

variable {g : Grammar}

@[grind! .]
theorem afterUnary_suffix (input : Input) : afterUnary input <:+ input := by
  induction input with
  | nil => exact List.suffix_rfl
  | cons l rest ih =>
    unfold afterUnary
    grind

section

variable (hG : g.Forward)
include hG

theorem expressions_forward (f : Follow) : Reader.Forward (g.expressions f) :=
  fun _ _ _ h => separated_forward (hG.expr f) _ _ _ h

theorem argument_forward : Reader.Forward g.argument := by
  intro input value rest h
  simp only [argument, Option.bind_eq_bind, Option.bind_eq_some_iff] at h
  grind

theorem typedArguments_suffix (input rest : Input) (h : g.typedArguments input = some rest) :
    rest <:+ input := by
  have hItems := items_forward (hG.expr .inside) .parenClose
  simp only [typedArguments, Option.bind_eq_bind, Option.bind_eq_some_iff] at h
  obtain ⟨arguments, hOpen, h⟩ := h
  split at h
  · grind
  · obtain ⟨⟨type, behind⟩, hType, h⟩ := Option.bind_eq_some_iff.mp h
    split at h
    · grind
    · obtain ⟨more, hComma, h⟩ := Option.bind_eq_some_iff.mp h
      split at h
      · grind
      · obtain ⟨⟨list, behind⟩, hList, h⟩ := Option.bind_eq_some_iff.mp h
        grind

theorem sliceBody_suffix (input rest : Input) (h : indexBody.slice g input = some rest) :
    rest <:+ input := by
  simp only [indexBody.slice, Option.bind_eq_bind, Option.bind_eq_some_iff] at h
  obtain ⟨bound, hColon, h⟩ := h
  split at h
  · grind
  · obtain ⟨⟨e, behind⟩, hBound, h⟩ := Option.bind_eq_some_iff.mp h
    split at h
    · grind
    · simp only [Option.bind_eq_some_iff] at h
      grind

theorem indexBody_suffix (input rest : Input) (h : g.indexBody input = some rest) : rest <:+ input := by
  have hSlice := sliceBody_suffix hG
  unfold indexBody at h
  split at h
  · split at h
    · grind
    · grind
  · grind

theorem selectorBody_forward (phrase : Phrase) : Reader.Forward (g.selectorBody phrase) := by
  intro input value rest h
  simp only [selectorBody, Option.bind_eq_bind] at h
  grind [Option.bind_eq_some_iff]

theorem bracketSuffix_forward (phrase : Phrase) : Reader.Forward (g.bracketSuffix phrase) := by
  intro input value rest h
  have hArguments := typeArguments_forward hG
  have hIndex := indexBody_suffix hG
  simp only [bracketSuffix, Option.bind_eq_bind] at h
  grind [Option.bind_eq_some_iff]

theorem callSuffix_forward (phrase : Phrase) : Reader.Forward (g.callSuffix phrase) := by
  intro input value rest h
  have hArguments := bracketed?_forward (argument_forward hG)
  simp only [callSuffix, Option.bind_eq_bind] at h
  grind [Option.bind_eq_some_iff]

theorem suffixes_forward (f : Follow) (fuel : Nat) (phrase : Phrase) :
    Reader.Forward (g.suffixes f fuel phrase) := by
  induction fuel generalizing phrase with
  | zero =>
    intro input value rest h
    cases h
  | succ fuel ih =>
    intro input value rest h
    have hSelector := selectorBody_forward hG
    have hBracket := bracketSuffix_forward hG
    have hCall := callSuffix_forward hG
    rw [suffixes] at h
    simp only [Option.bind_eq_bind] at h
    grind [Option.bind_eq_some_iff]

theorem functionOperand_forward (f : Follow) : Reader.Forward (g.functionOperand f) := by
  intro input value rest h
  have hSignature := signature_forward hG false
  simp only [functionOperand, Option.bind_eq_bind] at h
  grind [Option.bind_eq_some_iff]

theorem negatedOperand_forward : Reader.Forward g.negatedOperand := by
  intro input value rest h
  simp only [negatedOperand, Option.bind_eq_bind, Option.bind_eq_some_iff] at h
  grind

theorem countedArray_forward : Reader.Forward g.countedArray := by
  intro input value rest h
  simp only [countedArray, Option.bind_eq_bind, Option.bind_eq_some_iff] at h
  grind

theorem typeOperand_forward (literalType : LiteralType) : Reader.Forward (g.typeOperand literalType) := by
  intro input value rest h
  simp only [typeOperand, Option.bind_eq_bind, Option.bind_eq_some_iff] at h
  grind

theorem parenthesizedType_suffix (input rest : Input) (h : g.parenthesizedType input = some rest) :
    rest <:+ input := by
  simp only [parenthesizedType, Option.bind_eq_bind, Option.bind_eq_some_iff] at h
  grind

theorem parenthesized_forward : Reader.Forward g.parenthesized := by
  intro input value rest h
  have hType := parenthesizedType_suffix hG
  rw [parenthesized] at h
  split at h
  · grind [Option.bind_eq_some_iff]
  · grind [Option.map_eq_some_iff]

theorem operand_forward (f : Follow) : Reader.Forward (g.operand f) := by
  intro input value rest h
  have hTyped := typedArguments_suffix hG
  have hFunction := functionOperand_forward hG f
  have hType := typeOperand_forward hG
  have hNegated := negatedOperand_forward hG
  have hParenthesized := parenthesized_forward hG
  have hArray := countedArray_forward hG
  unfold operand at h
  split at h
  · cases h
  · simp only [Option.bind_eq_bind] at h
    grind [Option.bind_eq_some_iff]

theorem primary_forward (f : Follow) : Reader.Forward (g.primary f) := by
  intro input value rest h
  have hOperand := operand_forward hG f
  have hSuffixes := suffixes_forward hG f
  simp only [primary, Option.bind_eq_bind, Option.bind_eq_some_iff] at h
  grind

theorem binaryTail_suffix (f : Follow) (fuel : Nat) (input rest : Input)
    (h : g.binaryTail f fuel input = some rest) : rest <:+ input := by
  induction fuel generalizing input with
  | zero => cases h
  | succ fuel ih =>
    have hPrimary := primary_forward hG f
    rw [binaryTail] at h
    simp only [Option.bind_eq_bind] at h
    grind [Option.bind_eq_some_iff, List.drop_suffix]

theorem exprStep_forward (f : Follow) : Reader.Forward (g.exprStep f) := by
  intro input value rest h
  have hPrimary := primary_forward hG f
  have hTail := binaryTail_suffix hG f
  simp only [exprStep, Option.bind_eq_bind, Option.bind_eq_some_iff] at h
  grind

theorem literalElement_forward : Reader.Forward g.literalElement := by
  intro input value rest h
  simp only [literalElement, Option.bind_eq_bind] at h
  grind [Option.bind_eq_some_iff]

theorem keyedElement_forward : Reader.Forward g.keyedElement := by
  intro input value rest h
  have hElement := literalElement_forward hG
  simp only [keyedElement, Option.bind_eq_bind, Option.bind_eq_some_iff] at h
  grind [Option.bind_eq_some_iff]

theorem literalValueStep_forward : Reader.Forward g.literalValueStep := by
  intro input value rest h
  have hElements := bracketed?_forward (keyedElement_forward hG)
  simp only [literalValueStep, Option.bind_eq_bind, Option.bind_eq_some_iff] at h
  grind

end

end GoCommands.Go.Grammar
