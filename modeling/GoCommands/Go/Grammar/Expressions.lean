import GoCommands.Go.Grammar.Types

/-!
# Expressions

Many phrases can be read as an expression and as a type: `a.b`, `a[b]`, `(a)`.  A phrase is read once,
and its record says what it can stand for.  A type alone is an expression only as part of a conversion,
an instantiation or a composite literal.
-/

namespace GoCommands.Go

/-- What a phrase is when it stands before the braces of a composite literal. -/
inductive LiteralType where
  | none
  | bare
  /-- A word behind a package. -/
  | qualified
  | generic
  /-- A type behind a tilde, which needs type arguments to be the type of a literal. -/
  | negated
  /-- A type that cannot be an expression, such as a slice. -/
  | explicit
deriving DecidableEq

structure Phrase where
  value : Bool
  type : Bool
  literalType : LiteralType
  /-- The phrase is a string literal and nothing else. -/
  string : Option Token

namespace Phrase

def plain : Phrase := ⟨true, false, .none, .none⟩

def typeOnly (literalType : LiteralType) : Phrase := ⟨false, true, literalType, .none⟩

def named (literalType : LiteralType) : Phrase := ⟨true, true, literalType, .none⟩

end Phrase

namespace Grammar

open Reader

variable (g : Grammar)

/-- Words that stand for a value wherever an expression can start. -/
def isPredeclared (name : Text) : Bool :=
  ["nil".toList, "true".toList, "false".toList, "iota".toList, "new".toList, "make".toList].contains name

/-- Predeclared functions whose first argument is a type. -/
def takesType (name : Text) : Bool := name == "new".toList || name == "make".toList

/-- The symbol stands before an operand, perhaps as two operators. -/
def isUnary (s : Symbol) : Bool :=
  [.plus, .minus, .not, .xor, .star, .and, .arrow, .logicalAnd, .andNot, .increment, .decrement].contains s

/-- The symbol stands between two operands, perhaps as two operators. -/
def isBinary (f : Follow) (s : Symbol) : Bool :=
  [.star, .slash, .percent, .shiftLeft, .shiftRight, .and, .andNot, .plus, .minus, .or, .xor, .equal,
    .notEqual, .less, .lessEqual, .greater, .greaterEqual, .logicalAnd, .logicalOr].contains s ||
    (s == .arrow && !f.send) || ((s == .increment || s == .decrement) && !f.step)

def expressions (f : Follow) (input : Input) : Option (List Expr × Input) :=
  separated (g.expr f) .comma f.line input.length input

def argument (input : Input) : Option (Unit × Input) := do
  let (_, rest) ← g.expr .inside input
  some ((), (symbol .ellipsis rest).getD rest)

/-- Arguments of `new` and `make`: a type, then expressions. -/
def typedArguments (input : Input) : Option Input := do
  let rest ← symbol .parenOpen input
  if let some behind := symbol .parenClose rest then some behind
  else
    let (_, rest) ← g.type false rest
    if let some behind := symbol .parenClose rest then some behind
    else
      let rest ← symbol .comma rest
      if let some behind := symbol .parenClose rest then some behind
      else
        let (_, behind) ← items (g.expr .inside) .parenClose rest.length rest
        some behind

/-- An index or a slice behind its opening bracket, up to the closing one. -/
def indexBody (input : Input) : Option Input :=
  match g.expr .inside input with
  | some (_, rest) =>
    if let some behind := symbol .bracketClose rest then some behind else slice rest
  | .none => slice input
where
  slice (input : Input) : Option Input := do
    let rest ← symbol .colon input
    if let some behind := symbol .bracketClose rest then some behind
    else
      let (_, rest) ← g.expr .inside rest
      if let some behind := symbol .bracketClose rest then some behind
      else
        let (_, rest) ← g.expr .inside (← symbol .colon rest)
        symbol .bracketClose rest

/-- The rest behind the braces that open the input, which need not be read otherwise. -/
def behindBraces : (depth : Nat) → Input → Input
  | _, [] => []
  | depth, l :: rest =>
    match l.token with
    | .symbol .braceOpen => behindBraces (depth + 1) rest
    | .symbol .braceClose => if depth ≤ 1 then rest else behindBraces (depth - 1) rest
    | _ => behindBraces depth rest

/-- The braces hold a literal and no block. -/
def onlyLiteral (input : Input) : Bool := (g.literalValue input).isSome && (g.block input).isNone

/-- Where a brace may open the body of a statement, it opens a literal if the closing brace is followed
by something that cannot follow a body.  Before a semicolon the contents decide. -/
def literalBeforeBody (input : Input) : Bool :=
  match ahead true (behindBraces 0 input) with
  | .none => false
  | some .eof => false
  | some (.symbol .semicolon) => g.onlyLiteral input
  | some (.symbol s) => !(s == .null || s == .braceClose)
  | some (.keyword k) => !(k == .else_ || k == .case_ || k == .default_)
  | some _ => true

/-- The brace that is next opens a literal of the phrase. -/
def opensLiteral (f : Follow) (phrase : Phrase) (input : Input) : Bool :=
  match phrase.literalType with
  | .none | .negated => false
  | .bare => !f.body
  | .qualified | .generic => !f.body || g.literalBeforeBody input
  | .explicit => !(phrase.value && f.body) || g.literalBeforeBody input

/-- The elements of a literal follow the phrase, `token` being the next one on its line. -/
def literalAhead (f : Follow) (phrase : Phrase) (token : Option Token) (input : Input) : Bool :=
  match token with
  | some token => token == .symbol .braceOpen && g.opensLiteral f phrase input
  | .none =>
    (phrase.literalType == .qualified || phrase.literalType == .generic) &&
      isAhead .braceOpen false input && g.onlyLiteral input

/-- A selector or type assertion behind its dot.  A word behind a single word may be a type of a
package. -/
def selectorBody (phrase : Phrase) (input : Input) : Option (Phrase × Input) :=
  match word input with
  | some (_, rest) =>
    some (if phrase.literalType == .bare then .named .qualified else .plain, rest)
  | .none => do
    let (_, rest) ← g.type false (← symbol .parenOpen input)
    some (.plain, ← symbol .parenClose rest)

/-- The type of a switch is next: `.(type)`. -/
def isTypeGuard : Input → Bool
  | ⟨_, .symbol .dot⟩ :: ⟨_, .symbol .parenOpen⟩ :: ⟨_, .keyword .type⟩ :: _ => true
  | _ => false

/-- Brackets behind a phrase: an index, a slice or type arguments. -/
def bracketSuffix (phrase : Phrase) (input : Input) : Option (Phrase × Input) := do
  let rest ← symbol .bracketOpen input
  let named := [.bare, .qualified, .negated].contains phrase.literalType
  match if phrase.value then g.indexBody rest else .none with
  | some behind =>
    let typed := named && isAhead .braceOpen false behind && (g.typeArguments input).isSome
    some (if typed then .named .generic else .plain, behind)
  | .none =>
    let (arguments, behind) ← g.typeArguments input
    let single := arguments.all fun types => types.length == 1
    let value := (phrase.type && single) || (phrase.value && isAhead .parenOpen false behind)
    if named then some (⟨value, true, .generic, .none⟩, behind)
    else if value then some (.plain, behind)
    else .none

def callSuffix (phrase : Phrase) (input : Input) : Option (Phrase × Input) := do
  if phrase.value then
    let (_, rest) ← bracketed? g.argument .parenOpen .parenClose false input
    some (.plain, rest)
  else
    let (_, rest) ← g.expr .inside (← symbol .parenOpen input)
    some (.plain, ← symbol .parenClose ((symbol .comma rest).getD rest))

/-- Everything that belongs to an operand behind it. -/
def suffixes (f : Follow) : (fuel : Nat) → Phrase → Input → Option (Phrase × Input)
  | 0, _, _ => .none
  | fuel + 1, phrase, input =>
    let stop := if phrase.value then some (phrase, input) else .none
    match ahead (f.line && phrase.value) input with
    | some (.symbol .dot) =>
      if !phrase.value || isTypeGuard input then stop
      else do
        let (phrase, rest) ← g.selectorBody phrase (← symbol .dot input)
        suffixes f fuel phrase rest
    | some (.symbol .bracketOpen) => do
      let (phrase, rest) ← g.bracketSuffix phrase input
      suffixes f fuel phrase rest
    | some (.symbol .parenOpen) => do
      let (phrase, rest) ← g.callSuffix phrase input
      suffixes f fuel phrase rest
    | token =>
      if g.literalAhead f phrase token input then do
        let (_, rest) ← g.literalValue input
        suffixes f fuel .plain rest
      else stop

/-- The lexemes, which are in reverse order, begin with type arguments that are each a single type. -/
def singleArguments : (depth : Nat) → Input → Bool
  | _, [] => false
  | depth, l :: rest =>
    match l.token with
    | .symbol .bracketClose => singleArguments (depth + 1) rest
    | .symbol .bracketOpen => depth == 1 || (depth != 0 && singleArguments (depth - 1) rest)
    | .symbol .parenClose | .symbol .braceClose => depth != 0 && singleArguments (depth + 1) rest
    | .symbol .parenOpen | .symbol .braceOpen => depth != 0 && singleArguments (depth - 1) rest
    | .symbol .or => 1 < depth && singleArguments depth rest
    | _ => depth != 0 && singleArguments depth rest

/-- A type from `input` to `rest` where an operand is expected.  With type arguments at its end it is an
expression, too. -/
def typePhrase (literalType : LiteralType) (input rest : Input) : Phrase :=
  ⟨singleArguments 0 (consumed input rest).reverse, true, literalType, .none⟩

/-- A function literal or the type of a function. -/
def functionOperand (f : Follow) (input : Input) : Option (Phrase × Input) := do
  let (_, rest) ← g.signature false input
  let phrase := typePhrase .none input rest
  if isAhead .braceOpen false rest && (!(phrase.value && f.body) || g.literalBeforeBody rest) then
    let (_, rest) ← g.block rest
    some (.plain, rest)
  else some (phrase, rest)

/-- A type behind a tilde.  Type arguments at its end can be those of the whole. -/
def negatedOperand (input : Input) : Option (Phrase × Input) := do
  let (_, rest) ← g.type false input
  some (typePhrase (if endsInArguments input rest then .generic else .negated) input rest, rest)

/-- An array type whose length is counted, with the elements that it needs. -/
def countedArray (input : Input) : Option (Phrase × Input) := do
  let rest ← symbol .ellipsis (← symbol .bracketOpen input)
  let (_, rest) ← g.type false (← symbol .bracketClose rest)
  let (_, rest) ← g.literalValue rest
  some (.plain, rest)

/-- A type where an operand is expected. -/
def typeOperand (literalType : LiteralType) (input : Input) : Option (Phrase × Input) := do
  let (_, rest) ← g.type false input
  some (typePhrase literalType input rest, rest)

/-- A type behind an opening parenthesis, and the closing one. -/
def parenthesizedType (input : Input) : Option Input := do
  let (_, rest) ← g.type false input
  symbol .parenClose rest

/-- An expression or a type in parentheses.  What it is besides an expression matters only before
brackets. -/
def parenthesized (input : Input) : Option (Phrase × Input) :=
  match (g.expr .inside input).bind fun r => symbol .parenClose r.2 with
  | some rest =>
    let typed := isAhead .bracketOpen false rest && (g.parenthesizedType input).isSome
    some (if typed then .named .none else .plain, rest)
  | .none => (g.parenthesizedType input).map fun rest => (.typeOnly .none, rest)

def operand (f : Follow) (input : Input) : Option (Phrase × Input) :=
  match input with
  | [] => .none
  | l :: rest =>
    match l.token with
    | .word name =>
      if takesType name && isAhead .parenOpen f.line rest then do
        some (.plain, ← g.typedArguments rest)
      else if isPredeclared name then some (.plain, rest)
      else some (.named .bare, rest)
    | .number _ => some (.plain, rest)
    | .rune _ => some (.plain, rest)
    | .string literal => some (⟨true, false, .none, some (.string literal)⟩, rest)
    | .rawString literal => some (⟨true, false, .none, some (.rawString literal)⟩, rest)
    | .keyword .func => g.functionOperand f rest
    | .keyword .map => g.typeOperand .explicit input
    | .keyword .struct => g.typeOperand .explicit input
    | .keyword .chan => g.typeOperand .none input
    | .keyword .interface => g.typeOperand .none input
    | .symbol .tilde => g.negatedOperand rest
    | .symbol .parenOpen => g.parenthesized rest
    | .symbol .bracketOpen =>
      if isAhead .ellipsis false rest then g.countedArray input else g.typeOperand .explicit input
    | _ => .none

/-- Leaves out the operators before an operand. -/
def afterUnary : Input → Input
  | [] => []
  | l :: rest =>
    match l.token with
    | .symbol s => if isUnary s then afterUnary rest else l :: rest
    | _ => l :: rest

def primary (f : Follow) (input : Input) : Option (Phrase × Input) := do
  let (phrase, rest) ← g.operand f input
  g.suffixes f (rest.length + 1) phrase rest

def binaryTail (f : Follow) : (fuel : Nat) → Input → Option Input
  | 0, _ => .none
  | fuel + 1, input =>
    match ahead f.line input with
    | some (.symbol s) =>
      if isBinary f s then do
        let (_, rest) ← g.primary f (afterUnary (input.drop 1))
        binaryTail f fuel rest
      else some input
    | _ => some input

def exprStep (f : Follow) (input : Input) : Option (Expr × Input) := do
  let operand := afterUnary input
  let (phrase, rest) ← g.primary f operand
  let behind ← g.binaryTail f (rest.length + 1) rest
  match phrase.string with
  | some literal =>
    let alone := operand.length == input.length && behind.length == rest.length
    some (if alone then .string literal else .other, behind)
  | .none => some (.other, behind)

def literalElement (input : Input) : Option (Unit × Input) :=
  if isAhead .braceOpen false input then g.literalValue input
  else do
    let (_, rest) ← g.expr .inside input
    some ((), rest)

def keyedElement (input : Input) : Option (Unit × Input) := do
  let (_, rest) ← g.literalElement input
  if isAhead .colon false rest then g.literalElement (← symbol .colon rest) else some ((), rest)

def literalValueStep (input : Input) : Option (Unit × Input) := do
  let (_, rest) ← bracketed? g.keyedElement .braceOpen .braceClose true input
  some ((), rest)

end Grammar

end GoCommands.Go
