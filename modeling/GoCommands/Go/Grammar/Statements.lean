import GoCommands.Go.Grammar.Expressions

/-!
# Statements

A statement says whether it may end the file without a line break: only those may that end with an
expression behind `=`, `:=`, `<-`, `return`, `go` or `defer`.
-/

namespace GoCommands.Go.Grammar

open Reader

variable (g : Grammar)

/-- A statement as far as the statements around it depend on it. -/
inductive Simple where
  | expression
  | step
  | assignment
deriving DecidableEq

/-- The token assigns, perhaps with an operator. -/
def isAssignment : Token → Bool
  | .symbol .assign => true
  | .symbol .define => true
  | .symbol (.assignOp _) => true
  | _ => false

def moreExpressions (first : Input) : Option Input :=
  if isAhead .comma false first then do
    let (_, rest) ← g.expressions .inside (← symbol .comma first)
    some rest
  else some first

/-- A statement of one line.  `line` and `body` say what may follow it; `source` what may follow the
expressions of an assignment. -/
def simple (line body : Bool) (source : Follow) (input : Input) : Option (Simple × Input) := do
  let (_, rest) ← g.expr ⟨line, body, true, true⟩ input
  match ahead line rest with
  | some (.symbol .increment) => some (.step, rest.drop 1)
  | some (.symbol .decrement) => some (.step, rest.drop 1)
  | some (.symbol .arrow) => do
    let (_, behind) ← g.expr source (rest.drop 1)
    some (.assignment, behind)
  | some (.symbol .comma) => do
    let rest ← g.moreExpressions rest
    if (ahead false rest).any isAssignment then assigned rest else .none
  | some token => if isAssignment token then assigned rest else some (.expression, rest)
  | .none => some (.expression, rest)
where
  assigned (input : Input) : Option (Simple × Input) := do
    let (_, behind) ← g.expressions source (input.drop 1)
    some (.assignment, behind)

/-- Constants: names, then perhaps a type and values.  The flag says that there are values. -/
def constSpec (input : Input) : Option (Bool × Input) := do
  let (_, rest) ← separated word .comma true input.length input
  match ahead true rest with
  | .none => some (false, rest)
  | some (.symbol .assign) => values rest
  | some (.symbol .semicolon) => some (false, rest)
  | some (.symbol .null) => some (false, rest)
  | some (.symbol .braceClose) => some (false, rest)
  | some (.symbol .parenClose) => some (false, rest)
  | some (.keyword .case_) => some (false, rest)
  | some (.keyword .default_) => some (false, rest)
  | some .eof => some (false, rest)
  | some _ => do
    let (_, rest) ← g.type false rest
    values rest
where
  values (input : Input) : Option (Bool × Input) := do
    let (_, rest) ← g.expressions .ending (← symbol .assign input)
    some (true, rest)

/-- Variables: names, then a type, values or both.  The flag says that there are values. -/
def varSpec (input : Input) : Option (Bool × Input) := do
  let (_, rest) ← separated word .comma false input.length input
  if isAhead .assign false rest then values rest
  else
    let (_, rest) ← g.type true rest
    if isAhead .assign true rest then values rest else some (false, rest)
where
  values (input : Input) : Option (Bool × Input) := do
    let (_, rest) ← g.expressions .ending (← symbol .assign input)
    some (true, rest)

/-- One specification, or several in parentheses that each end with a terminator. -/
def specs (spec : Reader Bool) (input : Input) : Option (Bool × Input) :=
  if let some rest := symbol .parenOpen input then do
    let (_, rest) ← terminated spec true .parenClose rest.length rest
    some (false, rest)
  else spec input

/-- A type declaration.  Brackets behind the name are the length of an array if they can be read so. -/
def typeSpec (input : Input) : Option (TypeSpec × Input) := do
  let (name, rest) ← word input
  if isAhead .assign false rest then aliased name rest
  else if isAhead .bracketOpen false rest then
    match g.type true rest with
    | some (type, behind) => some (⟨name, false, type⟩, behind)
    | .none =>
      let (_, rest) ← g.typeParameters rest
      if isAhead .assign false rest then aliased name rest else defined name rest
  else defined name rest
where
  aliased (name : Text) (input : Input) : Option (TypeSpec × Input) := do
    let (type, rest) ← g.type true (← symbol .assign input)
    some (⟨name, true, type⟩, rest)
  defined (name : Text) (input : Input) : Option (TypeSpec × Input) := do
    let (type, rest) ← g.type true input
    some (⟨name, false, type⟩, rest)

def typeSpecs (input : Input) : Option (List TypeSpec × Input) :=
  if let some rest := symbol .parenOpen input then
    terminated g.typeSpec false .parenClose rest.length rest
  else do
    let (spec, rest) ← g.typeSpec input
    some ([spec], rest)

/-- A list of statements ends before a closing brace and before the next case. -/
def listEnds (input : Input) : Bool :=
  match ahead false input with
  | some (.symbol .braceClose) | some (.keyword .case_) | some (.keyword .default_) => true
  | _ => false

/-- A label without a statement, which only the end of a list can follow. -/
def emptyLabel? (input : Input) : Option Input :=
  match input with
  | ⟨_, .word name⟩ :: rest =>
    if !isPredeclared name && isAhead .colon true rest && listEnds (rest.drop 1) then some (rest.drop 1)
    else .none
  | _ => .none

def statements : (fuel : Nat) → Reader (List Statement)
  | 0, _ => .none
  | fuel + 1, input =>
    if listEnds input then some ([], input)
    else if let some rest := emptyLabel? input then some ([.other], rest)
    else do
      let ((first, _), rest) ← g.statement input
      if listEnds rest then some ([first], rest)
      else
        let (more, behind) ← statements fuel (← terminator rest)
        some (first :: more, behind)

def statementList (input : Input) : Option (List Statement × Input) := g.statements (input.length + 1) input

def blockStep (input : Input) : Option (List Statement × Input) := do
  let (list, rest) ← g.statementList (← symbol .braceOpen input)
  some (list, ← symbol .braceClose rest)

/-- The condition of an `if` statement, behind the initializer if there is one. -/
def condition (input : Input) : Option Input := do
  let (kind, rest) ← g.simple false true .inside input
  if isAhead .semicolon false rest then
    let (_, rest) ← g.expr ⟨false, true, false, false⟩ (← symbol .semicolon rest)
    some rest
  else if kind == .expression then some rest else .none

def conditionalStep (input : Input) : Option (Unit × Input) := do
  let (_, rest) ← g.block (← g.condition input)
  if ahead true rest == some (.keyword .else_) then
    let rest := rest.drop 1
    if let some rest := keyword .if_ rest then g.conditional rest
    else
      let (_, rest) ← g.block rest
      some ((), rest)
  else some ((), rest)

/-- What follows the expressions of the header of a statement, up to its body. -/
def beforeBody : Follow := ⟨false, true, false, false⟩

/-- Condition and update of a `for` statement, behind the first semicolon. -/
def forClause (input : Input) : Option Input := do
  let rest ←
    if isAhead .semicolon false input then some input else (g.expr .inside input).map (·.2)
  let rest ← symbol .semicolon rest
  if isAhead .braceOpen false rest then some rest
  else (g.simple false true beforeBody rest).map (·.2)

/-- The variables of a range, up to and with the keyword. -/
def rangeVariables (input : Input) : Option Input := do
  let (_, rest) ← g.expr ⟨false, true, true, true⟩ input
  let rest ← g.moreExpressions rest
  let rest ← (symbol .define rest).or (symbol .assign rest)
  keyword .range rest

def forHeader (input : Input) : Option Input :=
  if isAhead .braceOpen false input then some input
  else if let some rest := (keyword .range input).or (g.rangeVariables input) then
    (g.expr beforeBody rest).map (·.2)
  else if isAhead .semicolon false input then g.forClause (input.drop 1)
  else do
    let (kind, rest) ← g.simple false true .inside input
    if isAhead .semicolon false rest then g.forClause (rest.drop 1)
    else if kind == .expression then some rest else .none

/-- The cases of a `switch` or `select` statement in braces. -/
def cases (header : Input → Option Input) (input : Input) : Option Input := do
  go input.length (← symbol .braceOpen input)
where
  go : Nat → Input → Option Input
    | 0, _ => .none
    | fuel + 1, input =>
      if let some behind := symbol .braceClose input then some behind
      else do
        let rest ← match keyword .default_ input with
          | some rest => some rest
          | .none => header (← keyword .case_ input)
        let (_, rest) ← g.statementList (← symbol .colon rest)
        go fuel rest

def expressionCase (input : Input) : Option Input := (g.expressions .inside input).map (·.2)

def typeCase (input : Input) : Option Input :=
  (separated (g.type false) .comma false input.length input).map (·.2)

/-- A send or a receive. -/
def communicationCase (input : Input) : Option Input := do
  let (_, rest) ← g.expr ⟨false, false, true, false⟩ input
  if isAhead .arrow false rest then (g.expr .inside (rest.drop 1)).map (·.2)
  else
    let behind ← g.moreExpressions rest
    match (symbol .define behind).or (symbol .assign behind) with
    | some source => (g.expr .inside source).map (·.2)
    | .none => if isAhead .comma false rest then .none else some behind

/-- An operand whose type is switched on, with the guard behind it.  A star belongs to the type that the
operand begins with. -/
def guarded (f : Follow) (input : Input) : Option Input := do
  let (phrase, rest) ← if isAhead .star false input then g.typeOperand .none input else g.operand f input
  let (_, rest) ← g.suffixes f (rest.length + 1) phrase rest
  if isTypeGuard rest then symbol .parenClose (rest.drop 3) else .none

/-- The header of a `switch` statement behind the initializer: the flag says that types are switched
on. -/
def switchSubject (input : Input) : Option (Bool × Input) :=
  if isAhead .braceOpen false input then some (false, input)
  else if let some rest := g.guarded follow input then some (true, rest)
  else do
    let (_, rest) ← g.expr follow input
    let rest ← g.moreExpressions rest
    match symbol .define rest with
    | some source => (g.guarded .inside source).map fun rest => (true, rest)
    | .none => some (false, rest)
where
  follow : Follow := ⟨false, true, true, true⟩

def switchBody (input : Input) : Option Input :=
  match (g.switchSubject input).bind fun (onTypes, rest) =>
      if isAhead .braceOpen false rest then some (onTypes, rest) else .none with
  | some subject => body subject
  | .none => do
    let (_, rest) ← g.simple false true .inside input
    body (← g.switchSubject (← symbol .semicolon rest))
where
  body : Bool × Input → Option Input
    | (true, rest) => g.cases g.typeCase rest
    | (false, rest) => g.cases g.expressionCase rest

def returned (input : Input) : Option (List Expr × Input) :=
  match ahead true input with
  | .none => some ([], input)
  | some .eof => some ([], input)
  | some (.symbol .semicolon) => some ([], input)
  | some (.symbol .null) => some ([], input)
  | some (.symbol .braceClose) => some ([], input)
  | some (.keyword .case_) => some ([], input)
  | some (.keyword .default_) => some ([], input)
  | some _ => g.expressions .ending input

/-- A label behind `break` or `continue`. -/
def label? (input : Input) : Input :=
  match ahead true input with
  | some (.word _) => input.drop 1
  | _ => input

def keywordStatement (k : Keyword) (rest : Input) : Option ((Statement × Bool) × Input) :=
  match k with
  | .const => do
    let (valued, rest) ← specs g.constSpec rest
    some ((.other, valued), rest)
  | .var => do
    let (valued, rest) ← specs g.varSpec rest
    some ((.other, valued), rest)
  | .type => do
    let (list, rest) ← g.typeSpecs rest
    some ((.types list, false), rest)
  | .return_ => do
    let (values, rest) ← g.returned rest
    some ((.return_ values, !values.isEmpty), rest)
  | .go | .defer_ => do
    let (_, rest) ← g.expr .ending rest
    some ((.other, true), rest)
  | .if_ => do
    let (_, rest) ← g.conditional rest
    some ((.other, false), rest)
  | .for_ => do
    let (_, rest) ← g.block (← g.forHeader rest)
    some ((.other, false), rest)
  | .switch => do some ((.other, false), ← g.switchBody rest)
  | .select => do some ((.other, false), ← g.cases g.communicationCase rest)
  | .fallthrough => some ((.other, false), rest)
  | .break_ | .continue_ => some ((.other, false), label? rest)
  | .goto => do
    let (_, rest) ← word rest
    some ((.other, false), rest)
  | _ => .none

def simpleStatement (input : Input) : Option ((Statement × Bool) × Input) := do
  let (kind, rest) ← g.simple true false .ending input
  some ((.other, kind == .assignment), rest)

def statementStep (input : Input) : Option ((Statement × Bool) × Input) :=
  match input with
  | [] => .none
  | l :: rest =>
    match l.token with
    | .symbol .semicolon => some ((.other, false), rest)
    | .symbol .braceOpen => do
      let (_, rest) ← g.block input
      some ((.other, false), rest)
    | .word name =>
      if !isPredeclared name && isAhead .colon true rest then do
        let ((_, unended), rest) ← g.statement (← symbol .colon rest)
        some ((.other, unended), rest)
      else g.simpleStatement input
    | .keyword k => (g.keywordStatement k rest).or (g.simpleStatement input)
    | _ => g.simpleStatement input

end GoCommands.Go.Grammar
