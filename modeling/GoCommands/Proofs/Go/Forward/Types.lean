import GoCommands.Go.Grammar.Types
import GoCommands.Proofs.Go.Forward.Reader

/-! # Readers of types go forward -/

namespace GoCommands.Go.Grammar

open Reader

variable {g : Grammar} (hG : g.Forward)
include hG

theorem typeElem_forward (lineEnds : Bool) : Reader.Forward (g.typeElem lineEnds) :=
  fun _ _ _ h => separated_forward (hG.type lineEnds) _ _ _ h

theorem typeArguments_forward : Reader.Forward g.typeArguments :=
  bracketed_forward (typeElem_forward hG false) _ _

theorem typeName_forward (lineEnds : Bool) : Reader.Forward (g.typeName lineEnds) := by
  intro input value rest h
  have hArguments := typeArguments_forward hG
  simp only [typeName, Option.bind_eq_bind, Option.bind_eq_some_iff] at h
  grind [Option.bind_eq_some_iff]

theorem entry_forward : Reader.Forward g.entry := by
  intro input value rest h
  simp only [entry, entry.unnamed, Option.bind_eq_bind] at h
  grind [Option.bind_eq_some_iff]

theorem parameters_forward : Reader.Forward g.parameters := by
  intro input value rest h
  have hEntries := bracketed?_forward (entry_forward hG)
  simp only [parameters, Option.bind_eq_bind, Option.bind_eq_some_iff] at h
  grind

theorem result_forward (lineEnds : Bool) : Reader.Forward (g.result lineEnds) := by
  intro input value rest h
  have hParameters := parameters_forward hG
  simp only [result, Option.bind_eq_bind] at h
  grind [Option.bind_eq_some_iff]

theorem signature_forward (lineEnds : Bool) : Reader.Forward (g.signature lineEnds) := by
  intro input value rest h
  have hParameters := parameters_forward hG
  have hResult := result_forward hG lineEnds
  simp only [signature, Option.bind_eq_bind, Option.bind_eq_some_iff] at h
  grind

theorem embeddedType_forward : Reader.Forward g.embeddedType := by
  intro input value rest h
  have hName := typeName_forward hG true
  simp only [embeddedType, Option.bind_eq_bind] at h
  grind [Option.bind_eq_some_iff]

theorem untaggedField_forward : Reader.Forward g.untaggedField := by
  intro input value rest h
  have hName := typeName_forward hG true
  have hEmbedded := embeddedType_forward hG
  have hArguments := typeArguments_forward hG
  have hWords := separated_forward word_forward .comma false
  simp only [untaggedField, untaggedField.embedded, untaggedField.named, Option.bind_eq_bind] at h
  grind [Option.bind_eq_some_iff]

theorem field_forward : Reader.Forward g.field := by
  intro input value rest h
  have hField := untaggedField_forward hG
  simp only [field, Option.bind_eq_bind, Option.bind_eq_some_iff] at h
  grind

theorem fields_forward : Reader.Forward g.fields := by
  intro input value rest h
  have hFields := terminated_forward (field_forward hG) false .braceClose
  simp only [fields, Option.bind_eq_bind, Option.bind_eq_some_iff] at h
  grind

theorem interfaceElem_forward : Reader.Forward g.interfaceElem := by
  intro input value rest h
  have hSignature := signature_forward hG true
  have hElem := typeElem_forward hG true
  simp only [interfaceElem, interfaceElem.embedded, Option.bind_eq_bind] at h
  grind [Option.bind_eq_some_iff]

theorem typeParameters_forward : Reader.Forward g.typeParameters := by
  have hWords := separated_forward word_forward .comma false
  have hElem := typeElem_forward hG false
  refine bracketed_forward ?_ _ _
  intro input value rest h
  simp only [typeParameters.parameter, Option.bind_eq_bind, Option.bind_eq_some_iff] at h
  grind

theorem typeBody_suffix (lineEnds : Bool) (input rest : Input)
    (h : g.typeBody lineEnds input = some rest) : rest <:+ input := by
  have hSignature := signature_forward hG lineEnds
  have hElems := terminated_forward (interfaceElem_forward hG) false .braceClose
  unfold typeBody at h
  split at h
  case h_1 =>
    split at h
    · simp only [Option.map_eq_some_iff] at h
      grind
    · simp only [Option.bind_eq_bind, Option.bind_eq_some_iff] at h
      grind
  case h_7 => cases h
  all_goals
    simp only [Option.bind_eq_bind, Option.bind_eq_some_iff, Option.map_eq_some_iff] at h
    grind

theorem negatedType_forward (lineEnds : Bool) : Reader.Forward (g.negatedType lineEnds) := by
  intro input value rest h
  have hArguments := typeArguments_forward hG
  simp only [negatedType, Option.bind_eq_bind, Option.bind_eq_some_iff] at h
  grind

theorem typeStep_forward (lineEnds : Bool) : Reader.Forward (g.typeStep lineEnds) := by
  intro input value rest h
  have hName := typeName_forward hG lineEnds
  have hFields := fields_forward hG
  have hNegated := negatedType_forward hG lineEnds
  have hBody := typeBody_suffix hG lineEnds input
  simp only [typeStep, Option.bind_eq_bind] at h
  grind [Option.bind_eq_some_iff]

end GoCommands.Go.Grammar
