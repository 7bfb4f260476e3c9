import GoCommands.Go.Grammar.Basic

/-! # Readers go forward

What a reader leaves is a suffix of its input, so everything it reads in names and literals stands in
the source text.
-/

namespace GoCommands.Go

namespace Reader

/-- The reader takes lexemes from the front and leaves the others. -/
abbrev Forward (r : Reader α) : Prop :=
  ∀ ⦃input value rest⦄, r input = some (value, rest) → rest <:+ input

variable {input rest : Input}

@[grind →]
theorem symbol_suffix {s : Symbol} (h : symbol s input = some rest) : rest <:+ input := by
  unfold symbol at h
  grind

@[grind →]
theorem keyword_suffix {k : Keyword} (h : keyword k input = some rest) : rest <:+ input := by
  unfold keyword at h
  grind

@[grind →]
theorem word_suffix {name : Text} (h : word input = some (name, rest)) : rest <:+ input := by
  unfold word at h
  grind

@[grind →]
theorem stringLiteral_suffix {literal : Token} (h : stringLiteral input = some (literal, rest)) :
    rest <:+ input := by
  unfold stringLiteral at h
  grind

@[grind! .]
theorem stringLiteral?_suffix (lineEnds : Bool) (input : Input) :
    (stringLiteral? lineEnds input).2 <:+ input := by
  unfold stringLiteral?
  grind

@[grind →]
theorem terminator_suffix (h : terminator input = some rest) : rest <:+ input := by
  unfold terminator at h
  grind

/-- A symbol that may be left out. -/
@[grind! .]
theorem getD_symbol_suffix (s : Symbol) (input : Input) : (symbol s input).getD input <:+ input := by
  cases h : symbol s input with
  | none => exact List.suffix_rfl
  | some rest => exact symbol_suffix h

theorem word_forward : Forward word := fun _ _ _ => word_suffix

section

variable {item : Reader α} (hItem : Forward item)
include hItem

theorem items_forward (close : Symbol) (fuel : Nat) : Forward (items item close fuel) := by
  induction fuel with
  | zero =>
    intro input value rest h
    cases h
  | succ fuel ih =>
    intro input value rest h
    rw [items] at h
    simp only [Option.bind_eq_bind, Option.bind_eq_some_iff] at h
    grind [Option.bind_eq_some_iff]

theorem bracketed_forward (opening close : Symbol) : Forward (bracketed item opening close) := by
  intro input value rest h
  have hItems := items_forward hItem close
  simp only [bracketed, Option.bind_eq_bind, Option.bind_eq_some_iff] at h
  grind

theorem bracketed?_forward (opening close : Symbol) (lone : Bool) :
    Forward (bracketed? item opening close lone) := by
  intro input value rest h
  have hItems := items_forward hItem close
  simp only [bracketed?, Option.bind_eq_bind, Option.bind_eq_some_iff] at h
  grind [Option.bind_eq_some_iff]

theorem terminated_forward (strict : Bool) (close : Symbol) (fuel : Nat) :
    Forward (terminated item strict close fuel) := by
  induction fuel with
  | zero =>
    intro input value rest h
    cases h
  | succ fuel ih =>
    intro input value rest h
    rw [terminated] at h
    simp only [Option.bind_eq_bind] at h
    grind [Option.bind_eq_some_iff]

theorem separated_forward (separator : Symbol) (lineEnds : Bool) (fuel : Nat) :
    Forward (separated item separator lineEnds fuel) := by
  induction fuel with
  | zero =>
    intro input value rest h
    cases h
  | succ fuel ih =>
    intro input value rest h
    rw [separated] at h
    simp only [Option.bind_eq_bind] at h
    grind [Option.bind_eq_some_iff]

end

end Reader

/-- Every reader of the grammar goes forward. -/
structure Grammar.Forward (g : Grammar) : Prop where
  type : ∀ lineEnds, Reader.Forward (g.type lineEnds)
  expr : ∀ f, Reader.Forward (g.expr f)
  block : Reader.Forward g.block
  statement : Reader.Forward g.statement
  conditional : Reader.Forward g.conditional
  literalValue : Reader.Forward g.literalValue

namespace Grammar.Forward

variable {g : Grammar} {input rest : Input} (hG : g.Forward)
include hG

@[grind →]
theorem type_suffix {lineEnds : Bool} {type : TypeExpr} (h : g.type lineEnds input = some (type, rest)) :
    rest <:+ input :=
  hG.type _ h

@[grind →]
theorem expr_suffix {f : Follow} {e : Expr} (h : g.expr f input = some (e, rest)) : rest <:+ input :=
  hG.expr _ h

@[grind →]
theorem block_suffix {list : List Statement} (h : g.block input = some (list, rest)) : rest <:+ input :=
  hG.block h

@[grind →]
theorem statement_suffix {s : Statement × Bool} (h : g.statement input = some (s, rest)) :
    rest <:+ input :=
  hG.statement h

@[grind →]
theorem conditional_suffix {u : Unit} (h : g.conditional input = some (u, rest)) : rest <:+ input :=
  hG.conditional h

@[grind →]
theorem literalValue_suffix {u : Unit} (h : g.literalValue input = some (u, rest)) : rest <:+ input :=
  hG.literalValue h

end Grammar.Forward

end GoCommands.Go
