import GoCommands.Go.Lexer
import GoCommands.Go.Grammar.Statements

/-!
# Source files

A file is a sequence of declarations and statements that end with terminators.  Only package clauses,
imports, functions and methods may end the file without one, and statements that end with certain
expressions.
-/

namespace GoCommands.Go

namespace Grammar

open Reader

/-- The readers for phrases of at most the given nesting. -/
def ofDepth : Nat → Grammar
  | 0 => .none
  | depth + 1 =>
    let g := ofDepth depth
    { type := g.typeStep
      expr := g.exprStep
      block := g.blockStep
      statement := g.statementStep
      conditional := g.conditionalStep
      literalValue := g.literalValueStep }

variable (g : Grammar)

def importSpec (input : Input) : Option (ImportSpec × Input) :=
  if let some rest := symbol .dot input then named .dot rest
  else match word input with
    | some (id, rest) => named (if id == ['_'] then .blank else .named id) rest
    | .none => named .none input
where
  named (name : ImportName) (input : Input) : Option (ImportSpec × Input) := do
    let (path, rest) ← stringLiteral input
    some (⟨name, path⟩, rest)

def importSpecs (input : Input) : Option (List ImportSpec × Input) :=
  if let some rest := symbol .parenOpen input then
    terminated importSpec false .parenClose rest.length rest
  else do
    let (spec, rest) ← importSpec input
    some ([spec], rest)

/-- The body of a function, if there is one. -/
def body? (input : Input) : Option (Option (List Statement) × Input) :=
  if isAhead .braceOpen true input then do
    let (list, rest) ← g.block input
    some (some list, rest)
  else some (.none, input)

def function (input : Input) : Option (Declaration × Input) := do
  let (name, rest) ← word input
  let rest ← if isAhead .bracketOpen false rest then (g.typeParameters rest).map (·.2) else some rest
  let (signature, rest) ← g.signature true rest
  let (_, rest) ← g.body? rest
  some (.function ⟨name, signature⟩, rest)

def method (input : Input) : Option (Declaration × Input) := do
  let (receiver, rest) ← g.parameters input
  let (name, rest) ← word rest
  let (signature, rest) ← g.signature true rest
  let (body, rest) ← g.body? rest
  some (.method ⟨receiver, name, signature, body⟩, rest)

/-- A receiver, a name and an opening parenthesis follow, which only a method has. -/
def isMethodAhead (input : Input) : Bool :=
  ((g.parameters input).bind fun r => word r.2).any fun r => isAhead .parenOpen false r.2

/-- A declaration or a statement at the top level; the flag says that it may end the file without a
line break. -/
def item (input : Input) : Option ((Declaration × Bool) × Input) :=
  match input with
  | ⟨_, .keyword .package⟩ :: rest => do
    let (name, rest) ← word rest
    some ((.package name, true), rest)
  | ⟨_, .keyword .import_⟩ :: rest => do
    let (specs, rest) ← importSpecs rest
    some ((.imports specs, true), rest)
  | ⟨_, .keyword .func⟩ :: rest =>
    match (g.function rest).or (g.method rest) with
    | some (declaration, rest) => some ((declaration, true), rest)
    | .none => if g.isMethodAhead rest then .none else statement
  | _ => statement
where
  statement : Option ((Declaration × Bool) × Input) := do
    match ← g.statement input with
    | ((.types specs, last), rest) => some ((.types specs, last), rest)
    | ((_, last), rest) => some ((.other, last), rest)

/-- The items of a file.  `follows` says that something was read before. -/
def itemsOf : (fuel : Nat) → (follows : Bool) → Input → Option (List Item)
  | 0, _, _ => .none
  | _, _, [] => .none
  | fuel + 1, follows, l :: rest =>
    if l.token == .eof then some []
    else do
      let ((declaration, last), behind) ← g.item (l :: rest)
      let item : Item := ⟨l.before, follows, declaration⟩
      match terminator behind with
      | some behind => do some (item :: (← itemsOf fuel true behind))
      | .none => if last && ahead false behind == some .eof then some [item] else .none

end Grammar

namespace SourceFile

/-- The declarations of a list of lexemes, which the end of the file closes. -/
def ofLexemes (ls : List Lexeme) : Option SourceFile :=
  ((Grammar.ofDepth (4 * ls.length)).itemsOf ls.length false ls).map SourceFile.mk

def parse (source : Text) : Option SourceFile := (lexemes source).bind ofLexemes

end SourceFile

end GoCommands.Go
