import GoCommands.Go.Source

/-!
# Names of types
-/

namespace GoCommands.Go

namespace TypeExpr

/-- The name a type rests on: `*pkg.Foo[T]` rests on `pkg.Foo`.  A type that is not named is represented
by its source text. -/
def baseName : TypeExpr → Text
  | name id => id
  | qualified _ _ source => source
  | generic base => base.baseName
  | pointer note target => note.getD target.baseName
  | parens note inner => note.getD inner.baseName
  | struct _ source => source
  | other source => source

/-- The type inside all parentheses; none if a comment is in its place. -/
def unwrapped : TypeExpr → Option TypeExpr
  | parens (some _) _ => none
  | parens none inner => inner.unwrapped
  | type => some type

/-- The type is this name, perhaps in parentheses. -/
def isNamed (id : Text) (type : TypeExpr) : Bool :=
  match type.unwrapped with
  | some (name n) => n == id
  | _ => false

/-- The type is this member of a package, perhaps in parentheses. -/
def isMember (package id : Text) (type : TypeExpr) : Bool :=
  match type.unwrapped with
  | some (qualified p n _) => p == package && n == id
  | _ => false

end TypeExpr

/-- The name of the type that a method is declared on. -/
def receiverName (receiver : List Parameter) : Option Text :=
  (receiver.find? fun p => !p.variadic).map fun p => p.type.baseName

end GoCommands.Go
