import GoCommands.Go.Grammar.Basic

/-!
# Types

In a parameter list and in a struct a word can be a name or a type.  It is a name if a type follows;
words before such a name, separated by commas, are names of the same type.
-/

namespace GoCommands.Go.Grammar

open Reader

variable (g : Grammar)

def typeElem (lineEnds : Bool) (input : Input) : Option (List TypeExpr × Input) :=
  separated (g.type lineEnds) .or lineEnds input.length input

def typeArguments (input : Input) : Option (List (List TypeExpr) × Input) :=
  bracketed (g.typeElem false) .bracketOpen .bracketClose input

/-- A named type: a word, perhaps behind a package, perhaps with type arguments. -/
def typeName (lineEnds : Bool) (input : Input) : Option (TypeExpr × Input) := do
  let (id, rest) ← word input
  let (base, rest) :=
    if isAhead .dot lineEnds rest then
      match (symbol .dot rest).bind word with
      | some (member, behind) =>
        (TypeExpr.qualified id member (sourceOf (consumed input behind)), behind)
      | .none => (.name id, rest)
    else (.name id, rest)
  if isAhead .bracketOpen lineEnds rest then
    match g.typeArguments rest with
    | some (_, behind) => some (.generic base, behind)
    | .none => some (base, rest)
  else some (base, rest)

/-- An entry of a parameter list before names are told from types. -/
inductive Entry where
  | bare (id : Text)
  | named (id : Text) (type : TypeExpr)
  | unnamed (type : TypeExpr)
  | variadic (names : List Text) (type : TypeExpr)

/-- A comma or the closing parenthesis is next. -/
def entryEnds (input : Input) : Bool := isAhead .comma false input || isAhead .parenClose false input

def entry (input : Input) : Option (Entry × Input) :=
  if let some rest := symbol .ellipsis input then do
    let (type, rest) ← g.type false rest
    some (.variadic [] type, rest)
  else match word input with
    | .none => do
      let (type, rest) ← g.type false input
      some (.unnamed type, rest)
    | some (id, rest) =>
      if entryEnds rest then some (.bare id, rest)
      else if let some rest := symbol .ellipsis rest then do
        let (type, rest) ← g.type false rest
        some (.variadic [id] type, rest)
      else
        match g.type false rest with
        | some (type, behind) => if entryEnds behind then some (.named id type, behind) else unnamed
        | .none => unnamed
where
  unnamed : Option (Entry × Input) := do
    let (type, rest) ← g.type false input
    some (.unnamed type, rest)

def unnamedParameters (ids : List Text) : List Parameter := ids.map fun id => ⟨[], false, .name id⟩

/-- Gives the words before a named entry its type. -/
def groupEntries : (pending : List Text) → List Entry → List Parameter
  | pending, [] => unnamedParameters pending
  | pending, .bare id :: rest => groupEntries (pending ++ [id]) rest
  | pending, .named id type :: rest => ⟨pending ++ [id], false, type⟩ :: groupEntries [] rest
  | pending, .unnamed type :: rest => unnamedParameters pending ++ ⟨[], false, type⟩ :: groupEntries [] rest
  | pending, .variadic names type :: rest =>
    unnamedParameters pending ++ ⟨names, true, type⟩ :: groupEntries [] rest

def parameters (input : Input) : Option (List Parameter × Input) := do
  let (entries, rest) ← bracketed? g.entry .parenOpen .parenClose true input
  some (groupEntries [] entries, rest)

/-- The token can start a type without parentheses. -/
def startsType : Token → Bool
  | .word _ | .keyword .map | .keyword .chan | .keyword .func | .keyword .struct
  | .keyword .interface => true
  | .symbol s => s == .star || s == .bracketOpen || s == .arrow || s == .tilde
  | _ => false

/-- Results: a parameter list, a type, or nothing. -/
def result (lineEnds : Bool) (input : Input) : Option (Option Result × Input) :=
  match ahead lineEnds input with
  | .none => some (.none, input)
  | some token =>
    if token == .symbol .parenOpen then do
      let (parameters, rest) ← g.parameters input
      some (some (.list parameters), rest)
    else if startsType token then do
      let (type, rest) ← g.type lineEnds input
      some (some (.single type), rest)
    else some (.none, input)

def signature (lineEnds : Bool) (input : Input) : Option (Signature × Input) := do
  let (parameters, rest) ← g.parameters input
  let (result, rest) ← g.result lineEnds rest
  some (⟨parameters, result⟩, rest)

/-- A field declaration can end here: the tag, a terminator or the closing brace is next. -/
def fieldEnds (input : Input) : Bool :=
  match ahead true input with
  | .none => true
  | some (.string _) | some (.rawString _) => true
  | some (.symbol s) => s == .semicolon || s == .null || s == .braceClose
  | some _ => false

/-- The lexemes can go on behind an embedded type: a next line starts with a field. -/
def goesOnAsField (input : Input) : Bool :=
  fieldEnds input &&
    match ahead true input, ahead false input with
    | .none, some (.word _) => true
    | .none, some (.symbol s) => s == .star || s == .braceClose
    | .none, _ => false
    | some _, _ => true

/-- The lexemes from `input` to `rest` end with type arguments. -/
def endsInArguments (input rest : Input) : Bool :=
  (consumed input rest).getLast?.any fun l => l.token == .symbol .bracketClose

/-- A type that a struct embeds: a named one, or one with type arguments. -/
def embeddedType (input : Input) : Option (TypeExpr × Input) :=
  if isAhead .tilde false input then do
    let (type, rest) ← g.type true input
    if endsInArguments input rest then some (type, rest) else .none
  else g.typeName true input

def untaggedField (input : Input) : Option (Field × Input) :=
  if isAhead .star false input || isAhead .tilde false input then do
    let (type, rest) ← g.embeddedType ((symbol .star input).getD input)
    some (⟨[], type, .none⟩, rest)
  else do
    let (id, rest) ← word input
    if fieldEnds rest then some (⟨[], .name id, .none⟩, rest)
    else if isAhead .dot true rest then embedded
    else if isAhead .comma true rest then do
      let (ids, rest) ← separated word .comma false rest.length (← symbol .comma rest)
      let (type, rest) ← g.type true rest
      some (⟨id :: ids, type, .none⟩, rest)
    else if isAhead .bracketOpen true rest then
      match g.typeArguments rest with
      | some (_, behind) =>
        if goesOnAsField (stringLiteral? true behind).2 then some (⟨[], .generic (.name id), .none⟩, behind)
        else named id rest
      | .none => named id rest
    else named id rest
where
  embedded : Option (Field × Input) := do
    let (type, rest) ← g.typeName true input
    some (⟨[], type, .none⟩, rest)
  named (id : Text) (rest : Input) : Option (Field × Input) := do
    let (type, rest) ← g.type true rest
    some (⟨[id], type, .none⟩, rest)

def field (input : Input) : Option (Field × Input) := do
  let (field, rest) ← g.untaggedField input
  let (tag, rest) := stringLiteral? true rest
  some ({ field with tag := tag }, rest)

def fields (input : Input) : Option (List Field × Input) := do
  terminated g.field false .braceClose input.length (← symbol .braceOpen input)

def interfaceElem (input : Input) : Option (Unit × Input) :=
  match word input with
  | some (_, rest) =>
    if isAhead .parenOpen true rest then do
      let (_, rest) ← g.signature true rest
      some ((), rest)
    else embedded
  | .none => embedded
where
  embedded : Option (Unit × Input) := do
    let (_, rest) ← g.typeElem true input
    some ((), rest)

/-- Type parameters in brackets: names, then a constraint. -/
def typeParameters (input : Input) : Option (List Unit × Input) :=
  bracketed parameter .bracketOpen .bracketClose input
where
  parameter (input : Input) : Option (Unit × Input) := do
    let (_, rest) ← separated word .comma false input.length input
    let (_, rest) ← g.typeElem false rest
    some ((), rest)

/-- A type of one of the forms that need no name to tell what they are. -/
def typeBody (lineEnds : Bool) (input : Input) : Option Input :=
  match input with
  | ⟨_, .symbol .bracketOpen⟩ :: rest =>
    if let some rest := symbol .bracketClose rest then (g.type lineEnds rest).map (·.2)
    else do
      let (_, rest) ← g.expr .inside rest
      let (_, rest) ← g.type lineEnds (← symbol .bracketClose rest)
      some rest
  | ⟨_, .keyword .map⟩ :: rest => do
    let (_, rest) ← g.type false (← symbol .bracketOpen rest)
    let (_, rest) ← g.type lineEnds (← symbol .bracketClose rest)
    some rest
  | ⟨_, .keyword .chan⟩ :: rest =>
    (g.type lineEnds ((symbol .arrow rest).getD rest)).map (·.2)
  | ⟨_, .symbol .arrow⟩ :: rest => do
    let (_, rest) ← g.type lineEnds (← keyword .chan rest)
    some rest
  | ⟨_, .keyword .func⟩ :: rest => (g.signature lineEnds rest).map (·.2)
  | ⟨_, .keyword .interface⟩ :: rest => do
    let (_, rest) ← terminated g.interfaceElem false .braceClose rest.length (← symbol .braceOpen rest)
    some rest
  | _ => .none

/-- A type behind a tilde, perhaps with type arguments behind both. -/
def negatedType (lineEnds : Bool) (input : Input) : Option (TypeExpr × Input) := do
  let (_, rest) ← g.type lineEnds (← symbol .tilde input)
  let base := TypeExpr.other (sourceOf (consumed input rest))
  if isAhead .bracketOpen lineEnds rest then
    match g.typeArguments rest with
    | some (_, behind) => some (.generic base, behind)
    | .none => some (base, rest)
  else some (base, rest)

/-- The first comment behind the token that was just read. -/
def noteOf (input : Input) : Option Text := input.head?.bind Lexeme.firstComment

def typeStep (lineEnds : Bool) (input : Input) : Option (TypeExpr × Input) :=
  match input with
  | ⟨_, .word _⟩ :: _ => g.typeName lineEnds input
  | ⟨_, .symbol .star⟩ :: rest => do
    let (target, behind) ← g.type lineEnds rest
    some (.pointer (noteOf rest) target, behind)
  | ⟨_, .symbol .parenOpen⟩ :: rest => do
    let (inner, behind) ← g.type false rest
    some (.parens (noteOf rest) inner, ← symbol .parenClose behind)
  | ⟨_, .keyword .struct⟩ :: rest => do
    let (fields, behind) ← g.fields rest
    some (.struct fields (sourceOf (consumed input behind)), behind)
  | ⟨_, .symbol .tilde⟩ :: _ => g.negatedType lineEnds input
  | _ => do
    let behind ← g.typeBody lineEnds input
    some (.other (sourceOf (consumed input behind)), behind)

end GoCommands.Go.Grammar
