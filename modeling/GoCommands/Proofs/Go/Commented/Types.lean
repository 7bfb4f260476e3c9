import GoCommands.Go.Grammar.Types
import GoCommands.Proofs.Go.Commented.Reader

/-! # Readers of types do not see comments

Only here the comment is kept: in the source text of a type, and behind a star or an opening parenthesis.
-/

namespace GoCommands.Go.Grammar

open Reader

variable {c : Text} {g : Grammar} {input input' rest rest' : Input}

theorem entryEnds_eq (h : Input.Commented c input input') : entryEnds input' = entryEnds input := by
  rw [entryEnds, entryEnds, isAhead_eq h, isAhead_eq h]

theorem fieldEnds_eq (h : Input.Commented c input input') : fieldEnds input' = fieldEnds input := by
  rw [fieldEnds, fieldEnds, ahead_eq h]

theorem goesOnAsField_eq (h : Input.Commented c input input') : goesOnAsField input' = goesOnAsField input := by
  rw [goesOnAsField, goesOnAsField, fieldEnds_eq h, ahead_eq h, ahead_eq h]

theorem endsInArguments_eq (h : Input.Commented c input input') (hRest : Input.Commented c rest rest') :
    endsInArguments input' rest' = endsInArguments input rest := by
  have hLast := List.forall₂_reverse_iff.mpr (consumed_commented h hRest)
  rw [endsInArguments, endsInArguments, List.getLast?_eq_head?_reverse, List.getLast?_eq_head?_reverse]
  generalize (consumed input rest).reverse = last, (consumed input' rest').reverse = last' at hLast ⊢
  cases hLast with
  | nil => rfl
  | cons hl _ => simp only [List.head?_cons, Option.any_some, hl.token]

theorem noteOf_commented (h : Input.Commented c input input') : NoteCommented c (noteOf input) (noteOf input') := by
  cases h with
  | nil => exact .inl rfl
  | cons hl _ => exact hl.firstComment

/-- An entry of a parameter list, and the same entry with the comment. -/
inductive Entry.Commented (c : Text) : Entry → Entry → Prop
  | bare (id : Text) : Commented c (.bare id) (.bare id)
  | named (id : Text) {type type' : TypeExpr} (h : TypeExpr.Commented c type type') :
      Commented c (.named id type) (.named id type')
  | unnamed {type type' : TypeExpr} (h : TypeExpr.Commented c type type') : Commented c (.unnamed type) (.unnamed type')
  | variadic (names : List Text) {type type' : TypeExpr} (h : TypeExpr.Commented c type type') :
      Commented c (.variadic names type) (.variadic names type')

theorem unnamedParameters_commented (ids : List Text) :
    List.Forall₂ (Parameter.Commented c) (unnamedParameters ids) (unnamedParameters ids) :=
  List.forall₂_same.mpr fun p hp => by
    obtain ⟨id, -, rfl⟩ := List.mem_map.mp hp
    exact ⟨rfl, rfl, .name id⟩

theorem groupEntries_commented {entries entries' : List Entry} (h : List.Forall₂ (Entry.Commented c) entries entries')
    (pending : List Text) :
    List.Forall₂ (Parameter.Commented c) (groupEntries pending entries) (groupEntries pending entries') := by
  induction h generalizing pending with
  | nil => exact unnamedParameters_commented pending
  | cons hEntry _ ih =>
    cases hEntry with
    | bare id => exact ih _
    | named id hType => exact .cons ⟨rfl, rfl, hType⟩ (ih _)
    | unnamed hType => exact List.rel_append (unnamedParameters_commented pending) (.cons ⟨rfl, rfl, hType⟩ (ih _))
    | variadic names hType => exact List.rel_append (unnamedParameters_commented pending) (.cons ⟨rfl, rfl, hType⟩ (ih _))

variable (hG : g.Blind c)
include hG

theorem typeElem_blind (lineEnds : Bool) :
    Reader.Blind c (List.Forall₂ (TypeExpr.Commented c)) (g.typeElem lineEnds) := by
  intro input input' h
  rw [typeElem, typeElem, h.length_eq]
  exact separated_blind (hG.type lineEnds) .or lineEnds _ h

theorem typeArguments_blind :
    Reader.Blind c (List.Forall₂ (List.Forall₂ (TypeExpr.Commented c))) g.typeArguments :=
  bracketed_blind (typeElem_blind hG false) .bracketOpen .bracketClose

/-- Type arguments behind a type, if they are there. -/
theorem generic_alike {base base' : TypeExpr} (hBase : TypeExpr.Commented c base base') (lineEnds : Bool)
    (hRest : Input.Commented c rest rest') :
    Alike c (TypeExpr.Commented c)
      (if isAhead .bracketOpen lineEnds rest then
        match g.typeArguments rest with
        | some (_, behind) => some (.generic base, behind)
        | .none => some (base, rest)
      else some (base, rest))
      (if isAhead .bracketOpen lineEnds rest' then
        match g.typeArguments rest' with
        | some (_, behind) => some (.generic base', behind)
        | .none => some (base', rest')
      else some (base', rest')) := by
  refine rel_ite (isAhead_eq hRest .bracketOpen lineEnds) ?_ (.some ⟨hBase, hRest⟩)
  refine (typeArguments_blind hG hRest).elim ?_ fun _ hBehind => ?_
  · exact .some ⟨hBase, hRest⟩
  · exact .some ⟨.generic hBase, hBehind⟩

theorem typeName_blind (lineEnds : Bool) : Reader.Blind c (TypeExpr.Commented c) (g.typeName lineEnds) := by
  intro input input' h
  refine (word_alike h).bind ?_
  rintro id _ rest rest' rfl hRest
  dsimp only
  rw [isAhead_eq hRest]
  cases isAhead .dot lineEnds rest with
  | false => exact generic_alike hG (.name id) lineEnds hRest
  | true =>
    refine Alike.elim (rel_bind (symbol_alike hRest .dot) fun hNext => word_alike hNext) ?_ ?_
    · exact generic_alike hG (.name id) lineEnds hRest
    · rintro member _ behind behind' rfl hBehind
      exact generic_alike hG (.qualified (source_commented h hBehind)) lineEnds hBehind

theorem entry_blind : Reader.Blind c (Entry.Commented c) g.entry := by
  intro input input' h
  have hUnnamed : Alike c (Entry.Commented c) (entry.unnamed g input) (entry.unnamed g input') :=
    (hG.type false h).bind fun hType hRest => .some ⟨.unnamed hType, hRest⟩
  rw [entry, entry]
  refine rel_elim (symbol_alike h .ellipsis) ?_ fun hRest => ?_
  · refine (word_alike h).elim ?_ ?_
    · exact hUnnamed
    · rintro id _ rest rest' rfl hRest
      refine rel_ite (entryEnds_eq hRest) (.some ⟨.bare id, hRest⟩) ?_
      refine rel_elim (symbol_alike hRest .ellipsis) ?_ fun hNext => ?_
      · refine (hG.type false hRest).elim ?_ fun hType hBehind => ?_
        · exact hUnnamed
        · exact rel_ite (entryEnds_eq hBehind) (.some ⟨.named id hType, hBehind⟩) hUnnamed
      · exact (hG.type false hNext).bind fun hType hBehind => .some ⟨.variadic [id] hType, hBehind⟩
  · exact (hG.type false hRest).bind fun hType hBehind => .some ⟨.variadic [] hType, hBehind⟩

theorem parameters_blind : Reader.Blind c (List.Forall₂ (Parameter.Commented c)) g.parameters := by
  intro input input' h
  refine (bracketed?_blind (entry_blind hG) .parenOpen .parenClose true h).bind fun hEntries hRest => ?_
  exact .some ⟨groupEntries_commented hEntries [], hRest⟩

theorem result_blind (lineEnds : Bool) : Reader.Blind c (Option.Rel (Result.Commented c)) (g.result lineEnds) := by
  intro input input' h
  rw [result, result, ahead_eq h]
  cases ahead lineEnds input with
  | none => exact .some ⟨.none, h⟩
  | some token =>
    refine rel_ite rfl ?_ (rel_ite rfl ?_ (.some ⟨.none, h⟩))
    · exact (parameters_blind hG h).bind fun hParameters hRest => .some ⟨.some (.list hParameters), hRest⟩
    · exact (hG.type lineEnds h).bind fun hType hRest => .some ⟨.some (.single hType), hRest⟩

theorem signature_blind (lineEnds : Bool) : Reader.Blind c (Signature.Commented c) (g.signature lineEnds) := by
  intro input input' h
  refine (parameters_blind hG h).bind fun hParameters hRest => ?_
  exact (result_blind hG lineEnds hRest).bind fun hResult hBehind => .some ⟨⟨hParameters, hResult⟩, hBehind⟩

theorem embeddedType_blind : Reader.Blind c (TypeExpr.Commented c) g.embeddedType := by
  intro input input' h
  refine rel_ite (isAhead_eq h .tilde false) ?_ (typeName_blind hG true h)
  refine (hG.type true h).bind fun hType hRest => ?_
  exact rel_ite (endsInArguments_eq h hRest) (.some ⟨hType, hRest⟩) .none

theorem untaggedField_blind : Reader.Blind c (FieldOf.Commented c) g.untaggedField := by
  intro input input' h
  have hNamed : ∀ {rest rest'} (id : Text), Input.Commented c rest rest' →
      Alike c (FieldOf.Commented c) (untaggedField.named g id rest) (untaggedField.named g id rest') :=
    fun id hRest => (hG.type true hRest).bind fun hType hBehind => .some ⟨⟨rfl, hType, rfl⟩, hBehind⟩
  rw [untaggedField, untaggedField, isAhead_eq h, isAhead_eq h]
  refine rel_ite rfl ?_ ?_
  · refine (embeddedType_blind hG (getD_symbol_commented h .star)).bind fun hType hRest => ?_
    exact .some ⟨⟨rfl, hType, rfl⟩, hRest⟩
  · refine (word_alike h).bind ?_
    rintro id _ rest rest' rfl hRest
    refine rel_ite (fieldEnds_eq hRest) (.some ⟨⟨rfl, .name id, rfl⟩, hRest⟩) ?_
    refine rel_ite (isAhead_eq hRest .dot true) ?_ ?_
    · exact (typeName_blind hG true h).bind fun hType hRest => .some ⟨⟨rfl, hType, rfl⟩, hRest⟩
    refine rel_ite (isAhead_eq hRest .comma true) ?_ ?_
    · refine rel_bind (symbol_alike hRest .comma) fun hNext => ?_
      rw [hRest.length_eq]
      refine (separated_blind word_blind .comma false _ hNext).bind fun hIds hBehind => ?_
      rw [List.forall₂_eq_eq_eq] at hIds
      subst hIds
      exact (hG.type true hBehind).bind fun hType hEnd => .some ⟨⟨rfl, hType, rfl⟩, hEnd⟩
    refine rel_ite (isAhead_eq hRest .bracketOpen true) ?_ (hNamed id hRest)
    refine (typeArguments_blind hG hRest).elim ?_ fun _ hBehind => ?_
    · exact hNamed id hRest
    · refine rel_ite (goesOnAsField_eq (stringLiteral?_alike hBehind true).2) ?_ (hNamed id hRest)
      exact .some ⟨⟨rfl, .generic (.name id), rfl⟩, hBehind⟩

theorem field_blind : Reader.Blind c (FieldOf.Commented c) g.field := by
  intro input input' h
  refine (untaggedField_blind hG h).bind fun hField hRest => ?_
  obtain ⟨hTag, hBehind⟩ := stringLiteral?_alike hRest true
  exact .some ⟨⟨hField.names, hField.type, hTag⟩, hBehind⟩

theorem fields_blind : Reader.Blind c (List.Forall₂ (FieldOf.Commented c)) g.fields := by
  intro input input' h
  rw [fields, fields, h.length_eq]
  exact rel_bind (symbol_alike h .braceOpen) fun hRest => terminated_blind (field_blind hG) false .braceClose _ hRest

theorem interfaceElem_blind : Reader.Blind c Eq g.interfaceElem := by
  intro input input' h
  have hEmbedded : Alike c Eq (interfaceElem.embedded g input) (interfaceElem.embedded g input') :=
    (typeElem_blind hG true h).bind fun _ hRest => .some ⟨rfl, hRest⟩
  rw [interfaceElem, interfaceElem]
  refine (word_alike h).elim ?_ fun _ hRest => ?_
  · exact hEmbedded
  · refine rel_ite (isAhead_eq hRest .parenOpen true) ?_ hEmbedded
    exact (signature_blind hG true hRest).bind fun _ hBehind => .some ⟨rfl, hBehind⟩

theorem typeParameters_blind : Reader.Blind c (List.Forall₂ Eq) g.typeParameters := by
  refine bracketed_blind (fun input input' h => ?_) .bracketOpen .bracketClose
  rw [typeParameters.parameter, typeParameters.parameter, h.length_eq]
  refine (separated_blind word_blind .comma false _ h).bind fun _ hRest => ?_
  exact (typeElem_blind hG false hRest).bind fun _ hBehind => .some ⟨rfl, hBehind⟩

theorem typeBody_alike (lineEnds : Bool) (h : Input.Commented c input input') :
    Option.Rel (Input.Commented c) (g.typeBody lineEnds input) (g.typeBody lineEnds input') := by
  have hType : ∀ {rest rest'}, Input.Commented c rest rest' →
      Option.Rel (Input.Commented c) ((g.type lineEnds rest).map (·.2)) ((g.type lineEnds rest').map (·.2)) :=
    fun hRest => (hG.type lineEnds hRest).rest
  have hBehind : ∀ {rest rest'}, Input.Commented c rest rest' →
      Option.Rel (Input.Commented c) ((g.type lineEnds rest).bind fun r => some r.2)
        ((g.type lineEnds rest').bind fun r => some r.2) :=
    fun hRest => (hG.type lineEnds hRest).bind fun _ hEnd => .some hEnd
  obtain ⟨rfl, rfl⟩ | ⟨before, before', token, rest, rest', rfl, rfl, hRest⟩ := commented_cases h
  · exact .none
  · cases token with
    | symbol s =>
      cases s with
      | bracketOpen =>
        rw [typeBody, typeBody]
        refine rel_elim (symbol_alike hRest .bracketClose) ?_ fun hNext => ?_
        · refine (hG.expr .inside hRest).bind fun _ hLength => ?_
          exact rel_bind (symbol_alike hLength .bracketClose) hBehind
        · exact hType hNext
      | arrow => exact rel_bind (keyword_alike hRest .chan) hBehind
      | _ => exact .none
    | keyword k =>
      cases k with
      | map =>
        refine rel_bind (symbol_alike hRest .bracketOpen) fun hKey => ?_
        exact (hG.type false hKey).bind fun _ hClose => rel_bind (symbol_alike hClose .bracketClose) hBehind
      | chan => exact hType (getD_symbol_commented hRest .arrow)
      | func => exact (signature_blind hG lineEnds hRest).rest
      | interface =>
        rw [typeBody, typeBody, hRest.length_eq]
        refine rel_bind (symbol_alike hRest .braceOpen) fun hElems => ?_
        exact (terminated_blind (interfaceElem_blind hG) false .braceClose _ hElems).bind fun _ hEnd => .some hEnd
      | _ => exact .none
    | _ => exact .none

theorem negatedType_blind (lineEnds : Bool) : Reader.Blind c (TypeExpr.Commented c) (g.negatedType lineEnds) := by
  intro input input' h
  refine rel_bind (symbol_alike h .tilde) fun hNegated => ?_
  refine (hG.type lineEnds hNegated).bind fun _ hRest => ?_
  exact generic_alike hG (.other (source_commented h hRest)) lineEnds hRest

theorem typeStep_blind (lineEnds : Bool) : Reader.Blind c (TypeExpr.Commented c) (g.typeStep lineEnds) := by
  intro input input' h
  have hOther : Alike c (TypeExpr.Commented c)
      ((g.typeBody lineEnds input).bind fun behind => some (.other (sourceOf (consumed input behind)), behind))
      ((g.typeBody lineEnds input').bind fun behind => some (.other (sourceOf (consumed input' behind)), behind)) :=
    rel_bind (typeBody_alike hG lineEnds h) fun hRest => .some ⟨.other (source_commented h hRest), hRest⟩
  obtain ⟨rfl, rfl⟩ | ⟨before, before', token, rest, rest', rfl, rfl, hRest⟩ := commented_cases h
  · exact hOther
  · cases token with
    | word id => exact typeName_blind hG lineEnds h
    | symbol s =>
      cases s with
      | star =>
        exact (hG.type lineEnds hRest).bind fun hTarget hBehind =>
          .some ⟨.pointer (noteOf_commented hRest) hTarget, hBehind⟩
      | parenOpen =>
        refine (hG.type false hRest).bind fun hInner hClose => ?_
        exact rel_bind (symbol_alike hClose .parenClose) fun hBehind =>
          .some ⟨.parens (noteOf_commented hRest) hInner, hBehind⟩
      | tilde => exact negatedType_blind hG lineEnds h
      | _ => exact hOther
    | keyword k =>
      cases k with
      | struct =>
        refine (fields_blind hG hRest).bind fun hFields hBehind => ?_
        exact .some ⟨TypeExpr.struct_commented hFields (source_commented h hBehind), hBehind⟩
      | _ => exact hOther
    | _ => exact hOther

end GoCommands.Go.Grammar
