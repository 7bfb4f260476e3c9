import GoCommands.Go.Grammar.Statements
import GoCommands.Proofs.Go.Forward.Expressions

/-! # Readers of statements go forward -/

namespace GoCommands.Go.Grammar

open Reader

variable {g : Grammar}

@[grind →]
theorem emptyLabel?_suffix {input rest : Input} (h : emptyLabel? input = some rest) : rest <:+ input := by
  unfold emptyLabel? at h
  split at h
  · grind [List.drop_suffix]
  · cases h

@[grind! .]
theorem label?_suffix (input : Input) : label? input <:+ input := by
  unfold label?
  split
  · exact List.drop_suffix 1 input
  · exact List.suffix_rfl

theorem specs_forward {spec : Reader Bool} (hSpec : Reader.Forward spec) : Reader.Forward (specs spec) := by
  intro input value rest h
  have hSpecs := terminated_forward hSpec true .parenClose
  unfold specs at h
  split at h
  · simp only [Option.bind_eq_bind, Option.bind_eq_some_iff] at h
    grind
  · exact hSpec h

section

variable (hG : g.Forward)
include hG

theorem moreExpressions_suffix (input rest : Input) (h : g.moreExpressions input = some rest) :
    rest <:+ input := by
  have hExpressions := expressions_forward hG .inside
  simp only [moreExpressions, Option.bind_eq_bind] at h
  grind [Option.bind_eq_some_iff]

theorem assigned_forward (source : Follow) : Reader.Forward (simple.assigned g source) := by
  intro input value rest h
  have hExpressions := expressions_forward hG source
  simp only [simple.assigned, Option.bind_eq_bind, Option.bind_eq_some_iff] at h
  grind [List.drop_suffix]

theorem simple_forward (line body : Bool) (source : Follow) :
    Reader.Forward (g.simple line body source) := by
  intro input value rest h
  have hMore := moreExpressions_suffix hG
  have hAssigned := assigned_forward hG source
  simp only [simple, Option.bind_eq_bind, Option.bind_eq_some_iff] at h
  obtain ⟨⟨first, behind⟩, hFirst, h⟩ := h
  split at h
  case h_3 | h_4 =>
    simp only [Option.bind_eq_some_iff] at h
    grind [List.drop_suffix]
  all_goals grind [List.drop_suffix]

theorem constSpec_forward : Reader.Forward g.constSpec := by
  intro input value rest h
  have hWords := separated_forward word_forward .comma true
  have hExpressions := expressions_forward hG .ending
  simp only [constSpec, Option.bind_eq_bind, Option.bind_eq_some_iff] at h
  obtain ⟨⟨names, behind⟩, hNames, h⟩ := h
  split at h
  case h_2 | h_10 =>
    simp only [constSpec.values, Option.bind_eq_bind, Option.bind_eq_some_iff] at h
    grind
  all_goals grind

theorem varSpec_forward : Reader.Forward g.varSpec := by
  intro input value rest h
  have hWords := separated_forward word_forward .comma false
  have hExpressions := expressions_forward hG .ending
  simp only [varSpec, varSpec.values, Option.bind_eq_bind, Option.bind_eq_some_iff] at h
  grind [Option.bind_eq_some_iff]

theorem typeSpec_forward : Reader.Forward g.typeSpec := by
  intro input value rest h
  have hParameters := typeParameters_forward hG
  simp only [typeSpec, typeSpec.aliased, typeSpec.defined, Option.bind_eq_bind] at h
  grind [Option.bind_eq_some_iff]

theorem typeSpecs_forward : Reader.Forward g.typeSpecs := by
  intro input value rest h
  have hSpec := typeSpec_forward hG
  have hSpecs := terminated_forward hSpec false .parenClose
  simp only [typeSpecs, Option.bind_eq_bind] at h
  grind [Option.bind_eq_some_iff]

theorem statements_forward (fuel : Nat) : Reader.Forward (g.statements fuel) := by
  induction fuel with
  | zero =>
    intro input value rest h
    cases h
  | succ fuel ih =>
    intro input value rest h
    rw [statements] at h
    simp only [Option.bind_eq_bind] at h
    grind [Option.bind_eq_some_iff]

theorem statementList_forward : Reader.Forward g.statementList :=
  fun _ _ _ h => statements_forward hG _ h

theorem blockStep_forward : Reader.Forward g.blockStep := by
  intro input value rest h
  have hList := statementList_forward hG
  simp only [blockStep, Option.bind_eq_bind, Option.bind_eq_some_iff] at h
  grind

theorem condition_suffix (input rest : Input) (h : g.condition input = some rest) : rest <:+ input := by
  have hSimple := simple_forward hG
  simp only [condition, Option.bind_eq_bind] at h
  grind [Option.bind_eq_some_iff]

theorem conditionalStep_forward : Reader.Forward g.conditionalStep := by
  intro input value rest h
  have hCondition := condition_suffix hG
  simp only [conditionalStep, Option.bind_eq_bind, Option.bind_eq_some_iff] at h
  obtain ⟨header, hHeader, ⟨list, behind⟩, hBlock, h⟩ := h
  split at h
  · split at h
    · grind [List.drop_suffix]
    · simp only [Option.bind_eq_some_iff] at h
      grind [List.drop_suffix]
  · grind

theorem forClause_suffix (input rest : Input) (h : g.forClause input = some rest) : rest <:+ input := by
  have hSimple := simple_forward hG
  simp only [forClause, Option.bind_eq_bind] at h
  split at h
  all_goals
    simp only [Option.bind_eq_some_iff, Option.map_eq_some_iff] at h
    grind [Option.map_eq_some_iff]

theorem rangeVariables_suffix (input rest : Input) (h : g.rangeVariables input = some rest) :
    rest <:+ input := by
  have hMore := moreExpressions_suffix hG
  simp only [rangeVariables, Option.bind_eq_bind, Option.bind_eq_some_iff, Option.or_eq_some_iff] at h
  grind

theorem forHeader_suffix (input rest : Input) (h : g.forHeader input = some rest) : rest <:+ input := by
  have hSimple := simple_forward hG
  have hClause := forClause_suffix hG
  have hRange := rangeVariables_suffix hG
  unfold forHeader at h
  split at h
  · grind
  · split at h
    · rename_i subject hSubject
      simp only [Option.or_eq_some_iff, Option.map_eq_some_iff] at hSubject h
      grind
    · split at h
      · grind [List.drop_suffix]
      · simp only [Option.bind_eq_bind, Option.bind_eq_some_iff] at h
        grind [List.drop_suffix]

theorem cases_suffix {header : Input → Option Input}
    (hHeader : ∀ input rest, header input = some rest → rest <:+ input) (input rest : Input)
    (h : g.cases header input = some rest) : rest <:+ input := by
  have hList := statementList_forward hG
  have hGo : ∀ fuel input rest, cases.go g header fuel input = some rest → rest <:+ input := by
    intro fuel
    induction fuel with
    | zero =>
      intro input rest h
      cases h
    | succ fuel ih =>
      intro input rest h
      rw [cases.go] at h
      split at h
      · grind
      · simp only [Option.bind_eq_bind] at h
        split at h
        all_goals
          simp only [Option.bind_eq_some_iff] at h
          grind
  simp only [cases, Option.bind_eq_bind, Option.bind_eq_some_iff] at h
  grind

theorem expressionCase_suffix (input rest : Input) (h : g.expressionCase input = some rest) :
    rest <:+ input := by
  have hExpressions := expressions_forward hG .inside
  simp only [expressionCase, Option.map_eq_some_iff] at h
  grind

theorem typeCase_suffix (input rest : Input) (h : g.typeCase input = some rest) : rest <:+ input := by
  have hTypes := separated_forward (hG.type false) .comma false
  simp only [typeCase, Option.map_eq_some_iff] at h
  grind

theorem communicationCase_suffix (input rest : Input) (h : g.communicationCase input = some rest) :
    rest <:+ input := by
  have hMore := moreExpressions_suffix hG
  simp only [communicationCase, Option.bind_eq_bind, Option.bind_eq_some_iff] at h
  obtain ⟨⟨first, behind⟩, hFirst, h⟩ := h
  split at h
  · simp only [Option.map_eq_some_iff] at h
    grind [List.drop_suffix]
  · obtain ⟨list, hList, h⟩ := Option.bind_eq_some_iff.mp h
    split at h
    · rename_i source hSource
      simp only [Option.or_eq_some_iff, Option.map_eq_some_iff] at hSource h
      grind
    · grind

theorem guarded_suffix (f : Follow) (input rest : Input) (h : g.guarded f input = some rest) :
    rest <:+ input := by
  have hType := typeOperand_forward hG
  have hOperand := operand_forward hG f
  have hSuffixes := suffixes_forward hG f
  simp only [guarded, Option.bind_eq_bind] at h
  split at h
  all_goals
    simp only [Option.bind_eq_some_iff] at h
    grind [List.drop_suffix]

theorem switchSubject_forward : Reader.Forward g.switchSubject := by
  intro input value rest h
  have hGuarded := guarded_suffix hG
  have hMore := moreExpressions_suffix hG
  unfold switchSubject at h
  split at h
  · grind
  · split at h
    · grind
    · simp only [Option.bind_eq_bind, Option.bind_eq_some_iff] at h
      grind [Option.map_eq_some_iff]

theorem switchBody_suffix (input rest : Input) (h : g.switchBody input = some rest) : rest <:+ input := by
  have hBody : ∀ subject rest, switchBody.body g subject = some rest → rest <:+ subject.2 := by
    rintro ⟨onTypes, source⟩ rest h
    cases onTypes with
    | true => exact cases_suffix hG (typeCase_suffix hG) _ _ h
    | false => exact cases_suffix hG (expressionCase_suffix hG) _ _ h
  have hSubject := switchSubject_forward hG
  have hSimple := simple_forward hG
  unfold switchBody at h
  split at h
  · rename_i subject hRead
    simp only [Option.bind_eq_some_iff] at hRead
    grind
  · simp only [Option.bind_eq_bind, Option.bind_eq_some_iff] at h
    grind

theorem returned_forward : Reader.Forward g.returned := by
  intro input value rest h
  have hExpressions := expressions_forward hG .ending
  unfold returned at h
  split at h
  all_goals grind

theorem keywordStatement_forward (k : Keyword) : Reader.Forward (g.keywordStatement k) := by
  intro input value rest h
  have hConst := specs_forward (constSpec_forward hG)
  have hVar := specs_forward (varSpec_forward hG)
  have hTypes := typeSpecs_forward hG
  have hReturned := returned_forward hG
  have hHeader := forHeader_suffix hG
  have hSwitch := switchBody_suffix hG
  have hSelect := cases_suffix hG (communicationCase_suffix hG)
  unfold keywordStatement at h
  split at h
  case h_11 | h_12 | h_13 => grind
  case h_15 => cases h
  all_goals
    simp only [Option.bind_eq_bind, Option.bind_eq_some_iff] at h
    grind

theorem simpleStatement_forward : Reader.Forward g.simpleStatement := by
  intro input value rest h
  have hSimple := simple_forward hG
  simp only [simpleStatement, Option.bind_eq_bind, Option.bind_eq_some_iff] at h
  grind

theorem statementStep_forward : Reader.Forward g.statementStep := by
  intro input value rest h
  have hSimple := simpleStatement_forward hG
  have hKeyword := keywordStatement_forward hG
  unfold statementStep at h
  split at h
  · cases h
  · simp only [Option.bind_eq_bind] at h
    grind [Option.bind_eq_some_iff, Option.or_eq_some_iff]

end

end GoCommands.Go.Grammar
