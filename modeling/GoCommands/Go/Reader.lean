import GoCommands.Go.Source

/-!
# Reading lexemes in sequence

A reader takes lexemes from the front of a list and gives a value with the lexemes that are left.  A
line break is not a token: it ends a statement or an element of a list where the grammar has a
terminator, and is white space everywhere else.
-/

namespace GoCommands.Go

abbrev Input := List Lexeme

abbrev Reader (α : Type) := Input → Option (α × Input)

namespace Reader

/-- The next token, or none behind a line break that ends the phrase. -/
def ahead (lineEnds : Bool) : Input → Option Token
  | [] => none
  | l :: _ => if lineEnds && l.onNewLine then none else some l.token

/-- The next token is the symbol. -/
def isAhead (s : Symbol) (lineEnds : Bool) (input : Input) : Bool :=
  ahead lineEnds input == some (.symbol s)

def symbol (s : Symbol) : Input → Option Input
  | ⟨_, .symbol t⟩ :: rest => if t == s then some rest else none
  | _ => none

def keyword (k : Keyword) : Input → Option Input
  | ⟨_, .keyword j⟩ :: rest => if j == k then some rest else none
  | _ => none

def word : Reader Text
  | ⟨_, .word name⟩ :: rest => some (name, rest)
  | _ => none

def stringLiteral : Reader Token
  | ⟨_, .string t⟩ :: rest => some (.string t, rest)
  | ⟨_, .rawString t⟩ :: rest => some (.rawString t, rest)
  | _ => none

/-- A string literal that is there or not. -/
def stringLiteral? (lineEnds : Bool) (input : Input) : Option Token × Input :=
  match ahead lineEnds input, stringLiteral input with
  | some _, some (t, rest) => (some t, rest)
  | _, _ => (none, input)

/-- The end of a statement: a line break, a semicolon or a null character. -/
def terminator : Input → Option Input
  | [] => none
  | l :: rest =>
    if l.onNewLine then some (l :: rest)
    else if l.token == .symbol .semicolon || l.token == .symbol .null then some rest
    else none

/-- Lexemes of `input` before `rest`. -/
def consumed (input rest : Input) : Input := input.take (input.length - rest.length)

/-- Items separated by commas up to a closing symbol; there is at least one, and a comma may follow the
last. -/
def items (item : Reader α) (close : Symbol) : (fuel : Nat) → Reader (List α)
  | 0, _ => none
  | fuel + 1, input => do
    let (first, rest) ← item input
    if let some behind := symbol close rest then some ([first], behind)
    else
      let rest ← symbol .comma rest
      if let some behind := symbol close rest then some ([first], behind)
      else
        let (more, behind) ← items item close fuel rest
        some (first :: more, behind)

/-- Items separated by commas in brackets, at least one. -/
def bracketed (item : Reader α) (opening close : Symbol) (input : Input) : Option (List α × Input) := do
  items item close input.length (← symbol opening input)

/-- Items separated by commas in brackets, perhaps none; `lone` admits a single comma. -/
def bracketed? (item : Reader α) (opening close : Symbol) (lone : Bool) (input : Input) :
    Option (List α × Input) := do
  let rest ← symbol opening input
  if let some behind := symbol close rest then some ([], behind)
  else match symbol .comma rest, lone with
    | some rest, true => do some ([], ← symbol close rest)
    | _, _ => items item close input.length rest

/-- Items that end with terminators up to a closing symbol.  The last item needs a terminator only if
`strict`. -/
def terminated (item : Reader α) (strict : Bool) (close : Symbol) : (fuel : Nat) → Reader (List α)
  | 0, _ => none
  | fuel + 1, input =>
    if let some behind := symbol close input then some ([], behind)
    else do
      let (first, rest) ← item input
      match symbol close rest, strict with
      | some behind, false => some ([first], behind)
      | _, _ =>
        let (more, behind) ← terminated item strict close fuel (← terminator rest)
        some (first :: more, behind)

def separated (item : Reader α) (separator : Symbol) (lineEnds : Bool) : (fuel : Nat) → Reader (List α)
  | 0, _ => none
  | fuel + 1, input => do
    let (first, rest) ← item input
    if isAhead separator lineEnds rest then
      let (more, behind) ← separated item separator lineEnds fuel (← symbol separator rest)
      some (first :: more, behind)
    else some ([first], rest)

end Reader

end GoCommands.Go
