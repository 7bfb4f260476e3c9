import GoCommands.Go.Grammar.Basic
import GoCommands.Go.TypeName
import Mathlib.Data.List.Forall2
import Mathlib.Data.List.Infix

/-! # Readers do not see comments

Two lists of lexemes have the same tokens and the same line breaks, and the second one has a comment in
addition. Every reader takes the same tokens from both. What it reads differs only in source texts that the
comment stands in and in the comments that are kept in the place of a type.
-/

namespace GoCommands

/-- The text of a part of a source, and of the same part with the comment `c`: they differ only if it is in there. -/
def Text.Commented (c t t' : Text) : Prop := t' = t ∨ c <:+: t'

namespace Text.Commented

variable {c s s' t t' : Text}

theorem refl (c t : Text) : Text.Commented c t t := .inl rfl

theorem append (hs : Text.Commented c s s') (ht : Text.Commented c t t') : Text.Commented c (s ++ t) (s' ++ t') := by
  rcases hs with rfl | hs
  · rcases ht with rfl | ht
    · exact .inl rfl
    · exact .inr (ht.trans (List.suffix_append _ _).isInfix)
  · exact .inr (hs.trans (List.prefix_append _ _).isInfix)

theorem eq_of_absent (h : Text.Commented c t t') (hAbsent : ¬ c <:+: t') : t' = t := h.resolve_right hAbsent

end Text.Commented

namespace Go

/-- The comment that is read at a place, if any: it may be the new one. -/
def NoteCommented (c : Text) (note note' : Option Text) : Prop := note' = note ∨ note' = some c

/-- The second lexeme is the first one, perhaps with the comment `c` before its token. -/
structure Lexeme.Commented (c : Text) (l l' : Lexeme) : Prop where
  token : l'.token = l.token
  onNewLine : l'.onNewLine = l.onNewLine
  firstComment : NoteCommented c l.firstComment l'.firstComment
  text : Text.Commented c l.text l'.text

theorem Lexeme.Commented.refl (c : Text) (l : Lexeme) : Lexeme.Commented c l l :=
  ⟨rfl, rfl, .inl rfl, .refl c l.text⟩

abbrev Input.Commented (c : Text) : Input → Input → Prop := List.Forall₂ (Lexeme.Commented c)

/-- The second type is the first one as it is read with the comment `c` in the source. -/
inductive TypeExpr.Commented (c : Text) : TypeExpr → TypeExpr → Prop
  | name (id : Text) : Commented c (.name id) (.name id)
  | qualified {package id source source' : Text} (h : Text.Commented c source source') :
      Commented c (.qualified package id source) (.qualified package id source')
  | generic {base base' : TypeExpr} (h : Commented c base base') : Commented c (.generic base) (.generic base')
  | pointer {note note' : Option Text} {target target' : TypeExpr} (hNote : NoteCommented c note note')
      (h : Commented c target target') : Commented c (.pointer note target) (.pointer note' target')
  | parens {note note' : Option Text} {inner inner' : TypeExpr} (hNote : NoteCommented c note note')
      (h : Commented c inner inner') : Commented c (.parens note inner) (.parens note' inner')
  | struct {fields fields' : List Field} {source source' : Text}
      (hFields : List.Forall₂ (fun f f' => f'.names = f.names ∧ f'.tag = f.tag) fields fields')
      (hTypes : List.Forall₂ (fun f f' => Commented c f.type f'.type) fields fields')
      (h : Text.Commented c source source') : Commented c (.struct fields source) (.struct fields' source')
  | other {source source' : Text} (h : Text.Commented c source source') : Commented c (.other source) (.other source')

structure FieldOf.Commented (c : Text) (f f' : Field) : Prop where
  names : f'.names = f.names
  type : TypeExpr.Commented c f.type f'.type
  tag : f'.tag = f.tag

theorem TypeExpr.struct_commented {c : Text} {fields fields' : List Field} {source source' : Text}
    (hFields : List.Forall₂ (FieldOf.Commented c) fields fields') (h : Text.Commented c source source') :
    TypeExpr.Commented c (.struct fields source) (.struct fields' source') :=
  .struct (hFields.imp fun _ _ hField => ⟨hField.names, hField.tag⟩) (hFields.imp fun _ _ hField => hField.type) h

theorem TypeExpr.fields_commented {c : Text} {fields fields' : List Field} {source source' : Text}
    (h : TypeExpr.Commented c (.struct fields source) (.struct fields' source')) :
    List.Forall₂ (FieldOf.Commented c) fields fields' := by
  cases h with
  | struct hFields hTypes _ => exact .mp (fun _ _ hField hType => ⟨hField.1, hType, hField.2⟩) hFields hTypes

structure Parameter.Commented (c : Text) (p p' : Parameter) : Prop where
  names : p'.names = p.names
  variadic : p'.variadic = p.variadic
  type : TypeExpr.Commented c p.type p'.type

inductive Result.Commented (c : Text) : Result → Result → Prop
  | single {type type' : TypeExpr} (h : TypeExpr.Commented c type type') : Commented c (.single type) (.single type')
  | list {parameters parameters' : List Parameter}
      (h : List.Forall₂ (Parameter.Commented c) parameters parameters') : Commented c (.list parameters) (.list parameters')

structure Signature.Commented (c : Text) (s s' : Signature) : Prop where
  parameters : List.Forall₂ (Parameter.Commented c) s.parameters s'.parameters
  result : Option.Rel (Result.Commented c) s.result s'.result

structure TypeSpec.Commented (c : Text) (spec spec' : TypeSpec) : Prop where
  name : spec'.name = spec.name
  isAlias : spec'.isAlias = spec.isAlias
  type : TypeExpr.Commented c spec.type spec'.type

inductive Statement.Commented (c : Text) : Statement → Statement → Prop
  | return_ (values : List Expr) : Commented c (.return_ values) (.return_ values)
  | types {specs specs' : List TypeSpec} (h : List.Forall₂ (TypeSpec.Commented c) specs specs') :
      Commented c (.types specs) (.types specs')
  | other : Commented c .other .other

section

variable {c : Text} {input input' rest rest' : Input}

theorem flatMap_text_commented (h : Input.Commented c input input') :
    Text.Commented c (input.flatMap Lexeme.text) (input'.flatMap Lexeme.text) := by
  induction h with
  | nil => exact .refl c []
  | cons hl _ ih =>
    rw [List.flatMap_cons, List.flatMap_cons]
    exact hl.text.append ih

theorem sourceOf_commented (h : Input.Commented c input input') :
    Text.Commented c (sourceOf input) (sourceOf input') := by
  cases h with
  | nil => exact .refl c []
  | cons hl hRest =>
    rw [sourceOf, sourceOf, hl.token]
    exact (Text.Commented.refl c _).append (flatMap_text_commented hRest)

theorem consumed_commented (h : Input.Commented c input input') (hRest : Input.Commented c rest rest') :
    Input.Commented c (Reader.consumed input rest) (Reader.consumed input' rest') := by
  rw [Reader.consumed, Reader.consumed, h.length_eq, hRest.length_eq]
  exact List.forall₂_take _ h

theorem source_commented (h : Input.Commented c input input') (hRest : Input.Commented c rest rest') :
    Text.Commented c (sourceOf (Reader.consumed input rest)) (sourceOf (Reader.consumed input' rest')) :=
  sourceOf_commented (consumed_commented h hRest)

end

namespace Reader

section

variable {α β γ δ : Type} {r : α → β → Prop} {q : γ → δ → Prop} {x : Option α} {y : Option β}

theorem rel_bind {next : α → Option γ} {next' : β → Option δ} (h : Option.Rel r x y)
    (hNext : ∀ {a b}, r a b → Option.Rel q (next a) (next' b)) : Option.Rel q (x.bind next) (y.bind next') := by
  cases h with
  | none => exact .none
  | some h => exact hNext h

theorem rel_map {next : α → γ} {next' : β → δ} (h : Option.Rel r x y)
    (hNext : ∀ {a b}, x = some a → y = some b → r a b → q (next a) (next' b)) :
    Option.Rel q (x.map next) (y.map next') := by
  cases h with
  | none => exact .none
  | some h => exact .some (hNext rfl rfl h)

theorem rel_or {x₁ x₂ : Option α} {y₁ y₂ : Option β} (h₁ : Option.Rel r x₁ y₁) (h₂ : Option.Rel r x₂ y₂) :
    Option.Rel r (x₁.or x₂) (y₁.or y₂) := by
  cases h₁ with
  | none => exact h₂
  | some h => exact .some h

theorem rel_ite {b b' : Bool} {x₁ x₂ : Option α} {y₁ y₂ : Option β} (hb : b' = b) (h₁ : Option.Rel r x₁ y₁)
    (h₂ : Option.Rel r x₂ y₂) : Option.Rel r (if b then x₁ else x₂) (if b' then y₁ else y₂) := by
  subst hb
  cases b'
  · exact h₂
  · exact h₁

@[elab_as_elim]
theorem rel_elim {motive : Option α → Option β → Prop} (h : Option.Rel r x y) (hNone : motive none none)
    (hSome : ∀ {a b}, r a b → motive (some a) (some b)) : motive x y := by
  cases h with
  | none => exact hNone
  | some h => exact hSome h

theorem isSome_eq_of_rel (h : Option.Rel r x y) : y.isSome = x.isSome := by
  cases h <;> rfl

end

variable {α β : Type} {c : Text} {R : α → α → Prop}

/-- Two readings that both fail, or take the same tokens and give values that `R` relates. -/
abbrev Alike (c : Text) (R : α → α → Prop) : Option (α × Input) → Option (α × Input) → Prop :=
  Option.Rel fun x y => R x.1 y.1 ∧ Input.Commented c x.2 y.2

/-- The reader does not see the comment, up to `R`. -/
abbrev Blind (c : Text) (R : α → α → Prop) (r : Reader α) : Prop :=
  ∀ ⦃input input'⦄, Input.Commented c input input' → Alike c R (r input) (r input')

namespace Alike

variable {x y : Option (α × Input)} (h : Alike c R x y)
include h

theorem bind {γ δ : Type} {q : γ → δ → Prop} {next : α × Input → Option γ} {next' : α × Input → Option δ}
    (hNext : ∀ {a b rest rest'}, R a b → Input.Commented c rest rest' →
      Option.Rel q (next (a, rest)) (next' (b, rest'))) :
    Option.Rel q (x.bind next) (y.bind next') :=
  rel_bind h fun h => hNext h.1 h.2

@[elab_as_elim]
theorem elim {motive : Option (α × Input) → Option (α × Input) → Prop} (hNone : motive none none)
    (hSome : ∀ {a b rest rest'}, R a b → Input.Commented c rest rest' → motive (some (a, rest)) (some (b, rest'))) :
    motive x y :=
  rel_elim h hNone fun h => hSome h.1 h.2

theorem mono {S : α → α → Prop} (hRS : ∀ a b, R a b → S a b) : Alike c S x y := by
  cases h with
  | none => exact .none
  | some h => exact .some ⟨hRS _ _ h.1, h.2⟩

/-- What is left when the value does not matter. -/
theorem rest : Option.Rel (Input.Commented c) (x.map (·.2)) (y.map (·.2)) := rel_map h fun _ _ h => h.2

end Alike

variable {input input' : Input} (h : Input.Commented c input input')
include h

/-- Two inputs end together, or they go on with the same token. -/
theorem commented_cases : input = [] ∧ input' = [] ∨ ∃ before before' token rest rest',
    input = ⟨before, token⟩ :: rest ∧ input' = ⟨before', token⟩ :: rest' ∧ Input.Commented c rest rest' := by
  cases h with
  | nil => exact .inl ⟨rfl, rfl⟩
  | @cons l l' rest rest' hl hRest =>
    obtain ⟨before, token⟩ := l
    obtain ⟨before', token'⟩ := l'
    obtain rfl : token' = token := hl.token
    exact .inr ⟨before, before', token', rest, rest', rfl, rfl, hRest⟩

theorem drop_commented (n : Nat) : Input.Commented c (input.drop n) (input'.drop n) := List.forall₂_drop n h

theorem ahead_eq (lineEnds : Bool) : ahead lineEnds input' = ahead lineEnds input := by
  cases h with
  | nil => rfl
  | cons hl _ => rw [ahead, ahead, hl.onNewLine, hl.token]

theorem isAhead_eq (s : Symbol) (lineEnds : Bool) : isAhead s lineEnds input' = isAhead s lineEnds input := by
  rw [isAhead, isAhead, ahead_eq h]

theorem symbol_alike (s : Symbol) : Option.Rel (Input.Commented c) (symbol s input) (symbol s input') := by
  obtain ⟨rfl, rfl⟩ | ⟨before, before', token, rest, rest', rfl, rfl, hRest⟩ := commented_cases h
  · exact .none
  · cases token with
    | symbol t => exact rel_ite rfl (.some hRest) .none
    | _ => exact .none

theorem keyword_alike (k : Keyword) : Option.Rel (Input.Commented c) (keyword k input) (keyword k input') := by
  obtain ⟨rfl, rfl⟩ | ⟨before, before', token, rest, rest', rfl, rfl, hRest⟩ := commented_cases h
  · exact .none
  · cases token with
    | keyword j => exact rel_ite rfl (.some hRest) .none
    | _ => exact .none

theorem word_alike : Alike c Eq (word input) (word input') := by
  obtain ⟨rfl, rfl⟩ | ⟨before, before', token, rest, rest', rfl, rfl, hRest⟩ := commented_cases h
  · exact .none
  · cases token with
    | word name => exact .some ⟨rfl, hRest⟩
    | _ => exact .none

theorem stringLiteral_alike : Alike c Eq (stringLiteral input) (stringLiteral input') := by
  obtain ⟨rfl, rfl⟩ | ⟨before, before', token, rest, rest', rfl, rfl, hRest⟩ := commented_cases h
  · exact .none
  · cases token with
    | string t | rawString t => exact .some ⟨rfl, hRest⟩
    | _ => exact .none

theorem terminator_alike : Option.Rel (Input.Commented c) (terminator input) (terminator input') := by
  cases h with
  | nil => exact .none
  | cons hl hRest =>
    rw [terminator, terminator, hl.token]
    exact rel_ite hl.onNewLine (.some (.cons hl hRest)) (rel_ite rfl (.some hRest) .none)

theorem getD_symbol_commented (s : Symbol) :
    Input.Commented c ((symbol s input).getD input) ((symbol s input').getD input') := by
  refine rel_elim (symbol_alike h s) ?_ fun hRest => ?_
  · exact h
  · exact hRest

theorem stringLiteral?_alike (lineEnds : Bool) :
    (stringLiteral? lineEnds input').1 = (stringLiteral? lineEnds input).1 ∧
      Input.Commented c (stringLiteral? lineEnds input).2 (stringLiteral? lineEnds input').2 := by
  rw [stringLiteral?, stringLiteral?, ahead_eq h]
  refine (stringLiteral_alike h).elim ?_ ?_
  · cases ahead lineEnds input <;> exact ⟨rfl, h⟩
  · rintro literal _ rest rest' rfl hRest
    cases ahead lineEnds input
    · exact ⟨rfl, h⟩
    · exact ⟨rfl, hRest⟩

omit h

theorem word_blind : Blind c Eq word := fun _ _ h => word_alike h

section

variable {item : Reader α} (hItem : Blind c R item)
include hItem

theorem items_blind (close : Symbol) (fuel : Nat) : Blind c (List.Forall₂ R) (items item close fuel) := by
  induction fuel with
  | zero => exact fun _ _ _ => .none
  | succ fuel ih =>
    intro input input' h
    rw [items, items]
    refine (hItem h).bind fun {first first' rest rest'} hFirst hRest => ?_
    dsimp only
    refine rel_elim (symbol_alike hRest close) ?_ fun hBehind => ?_
    · refine rel_bind (symbol_alike hRest .comma) fun {rest rest'} hRest => ?_
      refine rel_elim (symbol_alike hRest close) ?_ fun hBehind => ?_
      · refine (ih hRest).bind fun hMore hBehind => ?_
        exact .some ⟨.cons hFirst hMore, hBehind⟩
      · exact .some ⟨.cons hFirst .nil, hBehind⟩
    · exact .some ⟨.cons hFirst .nil, hBehind⟩

theorem bracketed_blind (opening close : Symbol) : Blind c (List.Forall₂ R) (bracketed item opening close) := by
  intro input input' h
  rw [bracketed, bracketed, h.length_eq]
  exact rel_bind (symbol_alike h opening) fun hRest => items_blind hItem close _ hRest

theorem bracketed?_blind (opening close : Symbol) (lone : Bool) :
    Blind c (List.Forall₂ R) (bracketed? item opening close lone) := by
  intro input input' h
  rw [bracketed?, bracketed?, h.length_eq]
  refine rel_bind (symbol_alike h opening) fun {rest rest'} hRest => ?_
  refine rel_elim (symbol_alike hRest close) ?_ fun hBehind => ?_
  · refine rel_elim (symbol_alike hRest .comma) ?_ fun hBehind => ?_
    · exact items_blind hItem close _ hRest
    · cases lone with
      | false => exact items_blind hItem close _ hRest
      | true => exact rel_bind (symbol_alike hBehind close) fun hBehind => .some ⟨.nil, hBehind⟩
  · exact .some ⟨.nil, hBehind⟩

theorem terminated_blind (strict : Bool) (close : Symbol) (fuel : Nat) :
    Blind c (List.Forall₂ R) (terminated item strict close fuel) := by
  induction fuel with
  | zero => exact fun _ _ _ => .none
  | succ fuel ih =>
    intro input input' h
    rw [terminated, terminated]
    refine rel_elim (symbol_alike h close) ?_ fun hBehind => ?_
    · refine (hItem h).bind fun {first first' rest rest'} hFirst hRest => ?_
      have hMore : Alike c (List.Forall₂ R)
          ((terminator rest).bind fun rest =>
            (terminated item strict close fuel rest).bind fun r => some (first :: r.1, r.2))
          ((terminator rest').bind fun rest =>
            (terminated item strict close fuel rest).bind fun r => some (first' :: r.1, r.2)) := by
        refine rel_bind (terminator_alike hRest) fun hNext => ?_
        exact (ih hNext).bind fun hMore hBehind => .some ⟨.cons hFirst hMore, hBehind⟩
      dsimp only
      refine rel_elim (symbol_alike hRest close) ?_ fun hBehind => ?_
      · exact hMore
      · cases strict with
        | true => exact hMore
        | false => exact .some ⟨.cons hFirst .nil, hBehind⟩
    · exact .some ⟨.nil, hBehind⟩

theorem separated_blind (separator : Symbol) (lineEnds : Bool) (fuel : Nat) :
    Blind c (List.Forall₂ R) (separated item separator lineEnds fuel) := by
  induction fuel with
  | zero => exact fun _ _ _ => .none
  | succ fuel ih =>
    intro input input' h
    rw [separated, separated]
    refine (hItem h).bind fun {first first' rest rest'} hFirst hRest => ?_
    refine rel_ite (isAhead_eq hRest separator lineEnds) ?_ (.some ⟨.cons hFirst .nil, hRest⟩)
    refine rel_bind (symbol_alike hRest separator) fun hNext => ?_
    exact (ih hNext).bind fun hMore hBehind => .some ⟨.cons hFirst hMore, hBehind⟩

end

end Reader

/-- No reader of the grammar sees the comment. -/
structure Grammar.Blind (c : Text) (g : Grammar) : Prop where
  type : ∀ lineEnds, Reader.Blind c (TypeExpr.Commented c) (g.type lineEnds)
  expr : ∀ f, Reader.Blind c Eq (g.expr f)
  block : Reader.Blind c (List.Forall₂ (Statement.Commented c)) g.block
  statement : Reader.Blind c (fun s s' => Statement.Commented c s.1 s'.1 ∧ s'.2 = s.2) g.statement
  conditional : Reader.Blind c Eq g.conditional
  literalValue : Reader.Blind c Eq g.literalValue

end Go

end GoCommands
