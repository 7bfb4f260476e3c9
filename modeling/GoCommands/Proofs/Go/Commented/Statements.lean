import GoCommands.Go.Grammar.Statements
import GoCommands.Proofs.Go.Commented.Expressions

/-! # Readers of statements do not see comments -/

namespace GoCommands.Go.Grammar

open Reader

variable {c : Text} {g : Grammar} {input input' rest rest' : Input}

theorem specs_blind {spec : Reader Bool} (hSpec : Reader.Blind c Eq spec) : Reader.Blind c Eq (specs spec) := by
  intro input input' h
  rw [specs, specs]
  refine rel_elim (symbol_alike h .parenOpen) ?_ fun hRest => ?_
  · exact hSpec h
  · dsimp only
    rw [hRest.length_eq]
    exact (terminated_blind hSpec true .parenClose _ hRest).bind fun _ hBehind => .some ⟨rfl, hBehind⟩

theorem listEnds_eq (h : Input.Commented c input input') : listEnds input' = listEnds input := by
  rw [listEnds, listEnds, ahead_eq h]

theorem emptyLabel?_alike (h : Input.Commented c input input') :
    Option.Rel (Input.Commented c) (emptyLabel? input) (emptyLabel? input') := by
  obtain ⟨rfl, rfl⟩ | ⟨before, before', token, rest, rest', rfl, rfl, hRest⟩ := commented_cases h
  · exact .none
  · cases token with
    | word name =>
      rw [emptyLabel?, emptyLabel?, isAhead_eq hRest, listEnds_eq (drop_commented hRest 1)]
      exact rel_ite rfl (.some (drop_commented hRest 1)) .none
    | _ => exact .none

theorem label?_commented (h : Input.Commented c input input') : Input.Commented c (label? input) (label? input') := by
  rw [label?, label?, ahead_eq h]
  split
  · exact drop_commented h 1
  · exact h

variable (hG : g.Blind c)
include hG

theorem moreExpressions_alike (h : Input.Commented c input input') :
    Option.Rel (Input.Commented c) (g.moreExpressions input) (g.moreExpressions input') := by
  refine rel_ite (isAhead_eq h .comma false) ?_ (.some h)
  refine rel_bind (symbol_alike h .comma) fun hRest => ?_
  exact (expressions_blind hG .inside hRest).bind fun _ hBehind => .some hBehind

theorem assigned_blind (source : Follow) : Reader.Blind c Eq (simple.assigned g source) := fun _ _ h =>
  (expressions_blind hG source (drop_commented h 1)).bind fun _ hBehind => .some ⟨rfl, hBehind⟩

theorem simple_blind (line body : Bool) (source : Follow) : Reader.Blind c Eq (g.simple line body source) := by
  intro input input' h
  refine (hG.expr _ h).bind fun {_ _ rest rest'} _ hRest => ?_
  dsimp only
  rw [ahead_eq hRest]
  split
  · exact .some ⟨rfl, drop_commented hRest 1⟩
  · exact .some ⟨rfl, drop_commented hRest 1⟩
  · exact (hG.expr source (drop_commented hRest 1)).bind fun _ hBehind => .some ⟨rfl, hBehind⟩
  · refine rel_bind (moreExpressions_alike hG hRest) fun hMore => ?_
    rw [ahead_eq hMore]
    exact rel_ite rfl (assigned_blind hG source hMore) .none
  · exact rel_ite rfl (assigned_blind hG source hRest) (.some ⟨rfl, hRest⟩)
  · exact .some ⟨rfl, hRest⟩

/-- The values of constants and variables. -/
theorem values_alike {α : Type} (a : α) (h : Input.Commented c input input') :
    Alike c Eq
      ((symbol .assign input).bind fun rest => (g.expressions .ending rest).bind fun (_, rest) => some (a, rest))
      ((symbol .assign input').bind fun rest => (g.expressions .ending rest).bind fun (_, rest) => some (a, rest)) :=
  rel_bind (symbol_alike h .assign) fun hRest =>
    (expressions_blind hG .ending hRest).bind fun _ hBehind => .some ⟨rfl, hBehind⟩

theorem constSpec_blind : Reader.Blind c Eq g.constSpec := by
  intro input input' h
  rw [constSpec, constSpec, h.length_eq]
  refine (separated_blind word_blind .comma true _ h).bind fun {_ _ rest rest'} _ hRest => ?_
  dsimp only
  rw [ahead_eq hRest]
  split
  case h_2 => exact values_alike hG true hRest
  case h_10 => exact (hG.type false hRest).bind fun _ hBehind => values_alike hG true hBehind
  all_goals exact .some ⟨rfl, hRest⟩

theorem varSpec_blind : Reader.Blind c Eq g.varSpec := by
  intro input input' h
  rw [varSpec, varSpec, h.length_eq]
  refine (separated_blind word_blind .comma false _ h).bind fun _ hRest => ?_
  refine rel_ite (isAhead_eq hRest .assign false) (values_alike hG true hRest) ?_
  refine (hG.type true hRest).bind fun _ hBehind => ?_
  exact rel_ite (isAhead_eq hBehind .assign true) (values_alike hG true hBehind) (.some ⟨rfl, hBehind⟩)

theorem typeSpec_blind : Reader.Blind c (TypeSpec.Commented c) g.typeSpec := by
  intro input input' h
  refine (word_alike h).bind ?_
  rintro name _ rest rest' rfl hRest
  have hDefined : ∀ {rest rest'}, Input.Commented c rest rest' →
      Alike c (TypeSpec.Commented c) (typeSpec.defined g name rest) (typeSpec.defined g name rest') :=
    fun hRest => (hG.type true hRest).bind fun hType hBehind => .some ⟨⟨rfl, rfl, hType⟩, hBehind⟩
  have hAliased : ∀ {rest rest'}, Input.Commented c rest rest' →
      Alike c (TypeSpec.Commented c) (typeSpec.aliased g name rest) (typeSpec.aliased g name rest') :=
    fun hRest => rel_bind (symbol_alike hRest .assign) fun hNext =>
      (hG.type true hNext).bind fun hType hBehind => .some ⟨⟨rfl, rfl, hType⟩, hBehind⟩
  refine rel_ite (isAhead_eq hRest .assign false) (hAliased hRest) ?_
  refine rel_ite (isAhead_eq hRest .bracketOpen false) ?_ (hDefined hRest)
  refine (hG.type true hRest).elim ?_ fun hType hBehind => ?_
  · refine (typeParameters_blind hG hRest).bind fun _ hBehind => ?_
    exact rel_ite (isAhead_eq hBehind .assign false) (hAliased hBehind) (hDefined hBehind)
  · exact .some ⟨⟨rfl, rfl, hType⟩, hBehind⟩

theorem typeSpecs_blind : Reader.Blind c (List.Forall₂ (TypeSpec.Commented c)) g.typeSpecs := by
  intro input input' h
  rw [typeSpecs, typeSpecs]
  refine rel_elim (symbol_alike h .parenOpen) ?_ fun hRest => ?_
  · exact (typeSpec_blind hG h).bind fun hSpec hRest => .some ⟨.cons hSpec .nil, hRest⟩
  · dsimp only
    rw [hRest.length_eq]
    exact terminated_blind (typeSpec_blind hG) false .parenClose _ hRest

theorem statements_blind (fuel : Nat) : Reader.Blind c (List.Forall₂ (Statement.Commented c)) (g.statements fuel) := by
  induction fuel with
  | zero => exact fun _ _ _ => .none
  | succ fuel ih =>
    intro input input' h
    rw [statements, statements]
    refine rel_ite (listEnds_eq h) (.some ⟨.nil, h⟩) ?_
    refine rel_elim (emptyLabel?_alike h) ?_ fun hRest => ?_
    · refine (hG.statement h).bind fun hFirst hRest => ?_
      refine rel_ite (listEnds_eq hRest) (.some ⟨.cons hFirst.1 .nil, hRest⟩) ?_
      refine rel_bind (terminator_alike hRest) fun hNext => ?_
      exact (ih hNext).bind fun hMore hBehind => .some ⟨.cons hFirst.1 hMore, hBehind⟩
    · exact .some ⟨.cons .other .nil, hRest⟩

theorem statementList_blind : Reader.Blind c (List.Forall₂ (Statement.Commented c)) g.statementList := by
  intro input input' h
  rw [statementList, statementList, h.length_eq]
  exact statements_blind hG _ h

theorem blockStep_blind : Reader.Blind c (List.Forall₂ (Statement.Commented c)) g.blockStep := by
  intro input input' h
  refine rel_bind (symbol_alike h .braceOpen) fun hRest => ?_
  refine (statementList_blind hG hRest).bind fun hList hRest => ?_
  exact rel_bind (symbol_alike hRest .braceClose) fun hBehind => .some ⟨hList, hBehind⟩

theorem condition_alike (h : Input.Commented c input input') :
    Option.Rel (Input.Commented c) (g.condition input) (g.condition input') := by
  refine (simple_blind hG false true .inside h).bind ?_
  rintro kind _ rest rest' rfl hRest
  refine rel_ite (isAhead_eq hRest .semicolon false) ?_ (rel_ite rfl (.some hRest) .none)
  refine rel_bind (symbol_alike hRest .semicolon) fun hNext => ?_
  exact (hG.expr _ hNext).bind fun _ hBehind => .some hBehind

theorem conditionalStep_blind : Reader.Blind c Eq g.conditionalStep := by
  intro input input' h
  refine rel_bind (condition_alike hG h) fun hBody => ?_
  refine (hG.block hBody).bind fun {_ _ rest rest'} _ hRest => ?_
  dsimp only
  rw [ahead_eq hRest]
  refine rel_ite rfl ?_ (.some ⟨rfl, hRest⟩)
  have hElse := drop_commented hRest 1
  refine rel_elim (keyword_alike hElse .if_) ?_ fun hNext => ?_
  · exact (hG.block hElse).bind fun _ hBehind => .some ⟨rfl, hBehind⟩
  · exact hG.conditional hNext

theorem forClause_alike (h : Input.Commented c input input') :
    Option.Rel (Input.Commented c) (g.forClause input) (g.forClause input') := by
  have hUpdate : ∀ {rest rest'}, Input.Commented c rest rest' → Option.Rel (Input.Commented c)
      ((symbol .semicolon rest).bind fun rest =>
        if isAhead .braceOpen false rest then some rest
        else (g.simple false true beforeBody rest).map (·.2))
      ((symbol .semicolon rest').bind fun rest =>
        if isAhead .braceOpen false rest then some rest
        else (g.simple false true beforeBody rest).map (·.2)) := by
    intro rest rest' hRest
    refine rel_bind (symbol_alike hRest .semicolon) fun hNext => ?_
    exact rel_ite (isAhead_eq hNext .braceOpen false) (.some hNext) (simple_blind hG false true beforeBody hNext).rest
  exact rel_ite (isAhead_eq h .semicolon false) (hUpdate h) (rel_bind (hG.expr .inside h).rest hUpdate)

theorem rangeVariables_alike (h : Input.Commented c input input') :
    Option.Rel (Input.Commented c) (g.rangeVariables input) (g.rangeVariables input') := by
  refine (hG.expr _ h).bind fun _ hRest => ?_
  refine rel_bind (moreExpressions_alike hG hRest) fun hMore => ?_
  refine rel_bind (rel_or (symbol_alike hMore .define) (symbol_alike hMore .assign)) fun hRange => ?_
  exact keyword_alike hRange .range

theorem forHeader_alike (h : Input.Commented c input input') :
    Option.Rel (Input.Commented c) (g.forHeader input) (g.forHeader input') := by
  rw [forHeader, forHeader]
  refine rel_ite (isAhead_eq h .braceOpen false) (.some h) ?_
  refine rel_elim (rel_or (keyword_alike h .range) (rangeVariables_alike hG h)) ?_ fun hSubject => ?_
  · refine rel_ite (isAhead_eq h .semicolon false) (forClause_alike hG (drop_commented h 1)) ?_
    refine (simple_blind hG false true .inside h).bind ?_
    rintro kind _ rest rest' rfl hRest
    refine rel_ite (isAhead_eq hRest .semicolon false) (forClause_alike hG (drop_commented hRest 1)) ?_
    exact rel_ite rfl (.some hRest) .none
  · exact (hG.expr beforeBody hSubject).rest

theorem casesGo_alike {header : Input → Option Input}
    (hHeader : ∀ {input input'}, Input.Commented c input input' →
      Option.Rel (Input.Commented c) (header input) (header input'))
    (fuel : Nat) (h : Input.Commented c input input') :
    Option.Rel (Input.Commented c) (cases.go g header fuel input) (cases.go g header fuel input') := by
  induction fuel generalizing input input' with
  | zero => exact .none
  | succ fuel ih =>
    have hBody : ∀ {rest rest'}, Input.Commented c rest rest' → Option.Rel (Input.Commented c)
        ((symbol .colon rest).bind fun rest => (g.statementList rest).bind fun r => cases.go g header fuel r.2)
        ((symbol .colon rest').bind fun rest => (g.statementList rest).bind fun r => cases.go g header fuel r.2) :=
      fun hRest => rel_bind (symbol_alike hRest .colon) fun hList =>
        (statementList_blind hG hList).bind fun _ hBehind => ih hBehind
    rw [cases.go, cases.go]
    refine rel_elim (symbol_alike h .braceClose) ?_ fun hBehind => ?_
    · refine rel_elim (keyword_alike h .default_) ?_ fun hRest => ?_
      · refine rel_bind (keyword_alike h .case_) fun hCase => ?_
        exact rel_bind (hHeader hCase) hBody
      · exact hBody hRest
    · exact .some hBehind

theorem cases_alike {header : Input → Option Input}
    (hHeader : ∀ {input input'}, Input.Commented c input input' →
      Option.Rel (Input.Commented c) (header input) (header input'))
    (h : Input.Commented c input input') :
    Option.Rel (Input.Commented c) (g.cases header input) (g.cases header input') := by
  rw [cases, cases, h.length_eq]
  exact rel_bind (symbol_alike h .braceOpen) fun hRest => casesGo_alike hG hHeader _ hRest

theorem expressionCase_alike (h : Input.Commented c input input') :
    Option.Rel (Input.Commented c) (g.expressionCase input) (g.expressionCase input') :=
  (expressions_blind hG .inside h).rest

theorem typeCase_alike (h : Input.Commented c input input') :
    Option.Rel (Input.Commented c) (g.typeCase input) (g.typeCase input') := by
  rw [typeCase, typeCase, h.length_eq]
  exact (separated_blind (hG.type false) .comma false _ h).rest

theorem communicationCase_alike (h : Input.Commented c input input') :
    Option.Rel (Input.Commented c) (g.communicationCase input) (g.communicationCase input') := by
  refine (hG.expr _ h).bind fun {_ _ rest rest'} _ hRest => ?_
  refine rel_ite (isAhead_eq hRest .arrow false) (hG.expr .inside (drop_commented hRest 1)).rest ?_
  refine rel_bind (moreExpressions_alike hG hRest) fun {behind behind'} hMore => ?_
  refine rel_elim (rel_or (symbol_alike hMore .define) (symbol_alike hMore .assign)) ?_ fun hSource => ?_
  · exact rel_ite (isAhead_eq hRest .comma false) .none (.some hMore)
  · exact (hG.expr .inside hSource).rest

theorem guarded_alike (f : Follow) (h : Input.Commented c input input') :
    Option.Rel (Input.Commented c) (g.guarded f input) (g.guarded f input') := by
  have hGuard : ∀ {x y}, Alike c Eq x y → Option.Rel (Input.Commented c)
      (x.bind fun r => (g.suffixes f (r.2.length + 1) r.1 r.2).bind fun last =>
        if isTypeGuard last.2 then symbol .parenClose (last.2.drop 3) else .none)
      (y.bind fun r => (g.suffixes f (r.2.length + 1) r.1 r.2).bind fun last =>
        if isTypeGuard last.2 then symbol .parenClose (last.2.drop 3) else .none) := by
    intro x y hOperand
    refine hOperand.bind ?_
    rintro phrase _ rest rest' rfl hRest
    dsimp only
    rw [hRest.length_eq]
    refine (suffixes_blind hG f _ phrase hRest).bind fun _ hBehind => ?_
    exact rel_ite (isTypeGuard_eq hBehind) (symbol_alike (drop_commented hBehind 3) .parenClose) .none
  exact rel_ite (isAhead_eq h .star false) (hGuard (typeOperand_blind hG .none h)) (hGuard (operand_blind hG f h))

theorem switchSubject_blind : Reader.Blind c Eq g.switchSubject := by
  intro input input' h
  rw [switchSubject, switchSubject]
  refine rel_ite (isAhead_eq h .braceOpen false) (.some ⟨rfl, h⟩) ?_
  refine rel_elim (guarded_alike hG _ h) ?_ fun hRest => ?_
  · refine (hG.expr _ h).bind fun _ hRest => ?_
    refine rel_bind (moreExpressions_alike hG hRest) fun {behind behind'} hMore => ?_
    refine rel_elim (symbol_alike hMore .define) ?_ fun hSource => ?_
    · exact .some ⟨rfl, hMore⟩
    · exact rel_map (guarded_alike hG .inside hSource) fun _ _ hRest => ⟨rfl, hRest⟩
  · exact .some ⟨rfl, hRest⟩

theorem switchBody_alike (h : Input.Commented c input input') :
    Option.Rel (Input.Commented c) (g.switchBody input) (g.switchBody input') := by
  have hBody : ∀ {onTypes rest rest'}, Input.Commented c rest rest' →
      Option.Rel (Input.Commented c) (switchBody.body g (onTypes, rest)) (switchBody.body g (onTypes, rest')) := by
    intro onTypes rest rest' hRest
    cases onTypes with
    | true => exact cases_alike hG (typeCase_alike hG) hRest
    | false => exact cases_alike hG (expressionCase_alike hG) hRest
  have hSubject : Alike c Eq
      ((g.switchSubject input).bind fun r => if isAhead .braceOpen false r.2 then some (r.1, r.2) else .none)
      ((g.switchSubject input').bind fun r => if isAhead .braceOpen false r.2 then some (r.1, r.2) else .none) :=
    (switchSubject_blind hG h).bind fun hKind hRest =>
      rel_ite (isAhead_eq hRest .braceOpen false) (.some ⟨hKind, hRest⟩) .none
  rw [switchBody, switchBody]
  refine hSubject.elim ?_ ?_
  · refine (simple_blind hG false true .inside h).bind fun _ hRest => ?_
    refine rel_bind (symbol_alike hRest .semicolon) fun hNext => ?_
    refine (switchSubject_blind hG hNext).bind ?_
    rintro onTypes _ rest rest' rfl hBody'
    exact hBody hBody'
  · rintro onTypes _ rest rest' rfl hRest
    exact hBody hRest

theorem returned_blind : Reader.Blind c Eq g.returned := by
  intro input input' h
  rw [returned, returned, ahead_eq h]
  split
  case h_8 => exact expressions_blind hG .ending h
  all_goals exact .some ⟨rfl, h⟩

theorem keywordStatement_blind (k : Keyword) :
    Reader.Blind c (fun s s' => Statement.Commented c s.1 s'.1 ∧ s'.2 = s.2) (g.keywordStatement k) := by
  intro input input' h
  cases k with
  | const =>
    refine (specs_blind (constSpec_blind hG) h).bind ?_
    rintro valued _ rest rest' rfl hRest
    exact .some ⟨⟨.other, rfl⟩, hRest⟩
  | var =>
    refine (specs_blind (varSpec_blind hG) h).bind ?_
    rintro valued _ rest rest' rfl hRest
    exact .some ⟨⟨.other, rfl⟩, hRest⟩
  | type => exact (typeSpecs_blind hG h).bind fun hSpecs hRest => .some ⟨⟨.types hSpecs, rfl⟩, hRest⟩
  | return_ =>
    refine (returned_blind hG h).bind ?_
    rintro values _ rest rest' rfl hRest
    exact .some ⟨⟨.return_ values, rfl⟩, hRest⟩
  | go | defer_ => exact (hG.expr .ending h).bind fun _ hRest => .some ⟨⟨.other, rfl⟩, hRest⟩
  | if_ => exact (hG.conditional h).bind fun _ hRest => .some ⟨⟨.other, rfl⟩, hRest⟩
  | for_ =>
    refine rel_bind (forHeader_alike hG h) fun hBody => ?_
    exact (hG.block hBody).bind fun _ hRest => .some ⟨⟨.other, rfl⟩, hRest⟩
  | switch => exact rel_bind (switchBody_alike hG h) fun hRest => .some ⟨⟨.other, rfl⟩, hRest⟩
  | select => exact rel_bind (cases_alike hG (communicationCase_alike hG) h) fun hRest => .some ⟨⟨.other, rfl⟩, hRest⟩
  | fallthrough => exact .some ⟨⟨.other, rfl⟩, h⟩
  | break_ | continue_ => exact .some ⟨⟨.other, rfl⟩, label?_commented h⟩
  | goto => exact (word_alike h).bind fun _ hRest => .some ⟨⟨.other, rfl⟩, hRest⟩
  | _ => exact .none

theorem simpleStatement_blind :
    Reader.Blind c (fun s s' => Statement.Commented c s.1 s'.1 ∧ s'.2 = s.2) g.simpleStatement := by
  intro input input' h
  refine (simple_blind hG true false .ending h).bind ?_
  rintro kind _ rest rest' rfl hRest
  exact .some ⟨⟨.other, rfl⟩, hRest⟩

theorem statementStep_blind :
    Reader.Blind c (fun s s' => Statement.Commented c s.1 s'.1 ∧ s'.2 = s.2) g.statementStep := by
  intro input input' h
  have hInput := h
  cases h with
  | nil => exact .none
  | cons hl hRest =>
    rw [statementStep, statementStep, hl.token]
    split
    · exact .some ⟨⟨.other, rfl⟩, hRest⟩
    · exact (hG.block hInput).bind fun _ hBehind => .some ⟨⟨.other, rfl⟩, hBehind⟩
    · rw [isAhead_eq hRest]
      refine rel_ite rfl ?_ (simpleStatement_blind hG hInput)
      refine rel_bind (symbol_alike hRest .colon) fun hNext => ?_
      exact (hG.statement hNext).bind fun hLabeled hBehind => .some ⟨⟨.other, hLabeled.2⟩, hBehind⟩
    · exact rel_or (keywordStatement_blind hG _ hRest) (simpleStatement_blind hG hInput)
    · exact simpleStatement_blind hG hInput

end GoCommands.Go.Grammar
