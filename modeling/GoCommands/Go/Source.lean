import GoCommands.Go.Token

/-!
# Declarations of a source file

The declarations are kept in the detail that the command model needs: names, types down to the name
they rest on, parameters, import paths, and bodies as far as they return string literals.  A comment
that directly follows the star of a pointer or an opening parenthesis in a type is kept, because it
takes the place of the type when the name of the type is read.
-/

namespace GoCommands.Go

/-- A field declaration of a struct.  An embedded field has no names, and a pointer to an embedded type
counts as the type. -/
structure FieldOf (τ : Type) where
  names : List Text
  type : τ
  /-- The string literal of the tag. -/
  tag : Option Token
deriving Repr

inductive TypeExpr where
  | name (id : Text)
  /-- A type of another package, with its source text. -/
  | qualified (package id : Text) (source : Text)
  | generic (base : TypeExpr)
  | pointer (note : Option Text) (target : TypeExpr)
  | parens (note : Option Text) (inner : TypeExpr)
  | struct (fields : List (FieldOf TypeExpr)) (source : Text)
  | other (source : Text)
deriving Repr

abbrev Field := FieldOf TypeExpr

/-- One declaration of a parameter list: several names may share a type. -/
structure Parameter where
  names : List Text
  variadic : Bool
  type : TypeExpr
deriving Repr

inductive Result where
  | single (type : TypeExpr)
  | list (parameters : List Parameter)
deriving Repr

structure Signature where
  parameters : List Parameter
  result : Option Result
deriving Repr

/-- Expressions are told apart only as far as string literals. -/
inductive Expr where
  | string (literal : Token)
  | other
deriving Repr

structure TypeSpec where
  name : Text
  isAlias : Bool
  type : TypeExpr
deriving Repr

inductive Statement where
  | return_ (values : List Expr)
  | types (specs : List TypeSpec)
  | other
deriving Repr

structure FunctionDecl where
  name : Text
  signature : Signature
deriving Repr

structure MethodDecl where
  receiver : List Parameter
  name : Text
  signature : Signature
  body : Option (List Statement)
deriving Repr

inductive ImportName where
  | none
  | dot
  | blank
  | named (id : Text)
deriving DecidableEq, Repr

structure ImportSpec where
  name : ImportName
  path : Token
deriving DecidableEq, Repr

inductive Declaration where
  | package (name : Text)
  | imports (specs : List ImportSpec)
  | function (decl : FunctionDecl)
  | method (decl : MethodDecl)
  | types (specs : List TypeSpec)
  /-- Variables, constants and statements. -/
  | other
deriving Repr

/-- A declaration at the top level with what stands between it and the token before it. -/
structure Item where
  before : List Trivia
  /-- The item is not at the start of the file. -/
  follows : Bool
  declaration : Declaration
deriving Repr

structure SourceFile where
  items : List Item
deriving Repr

namespace SourceFile

def declarations (f : SourceFile) : List Declaration := f.items.map Item.declaration

end SourceFile

end GoCommands.Go
