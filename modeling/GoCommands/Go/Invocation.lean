import GoCommands.Go.Literal
import GoCommands.Go.TypeName

/-!
# How functions can be called as commands

A command takes nothing or a context, and returns nothing or an error.
-/

namespace GoCommands.Go

/-- The name under which a file knows the package `context`. -/
inductive ContextImport where
  | named (name : Text)
  /-- Its members are used without a package name. -/
  | dot
  | notImported
deriving DecidableEq, Repr

def contextPackage : Text := "context".toList

def contextType : Text := "Context".toList

/-- How an import names the package. -/
def ImportName.context : ImportName → ContextImport
  | .none => .named contextPackage
  | .dot => .dot
  | .blank => .notImported
  | .named id => .named id

namespace SourceFile

def imports (f : SourceFile) : List ImportSpec :=
  f.declarations.flatMap fun
    | .imports specs => specs
    | _ => []

/-- The last import of the package decides. -/
def contextImport (f : SourceFile) : ContextImport :=
  f.imports.foldl
    (fun found spec =>
      if stringValue spec.path == some contextPackage then spec.name.context else found)
    .notImported

end SourceFile

/-- Types of the parameters, one for each name or unnamed declaration; none for a variadic one. -/
def parameterTypes (ps : List Parameter) : List (Option TypeExpr) :=
  ps.flatMap fun p =>
    List.replicate (max p.names.length 1) (if p.variadic then none else some p.type)

def resultTypes : Option Result → List (Option TypeExpr)
  | none => []
  | some (.single type) => [some type]
  | some (.list ps) => parameterTypes ps

/-- The type is the context type under this import. -/
def ContextImport.accepts (context : ContextImport) (type : TypeExpr) : Bool :=
  match context with
  | .named package => type.isMember package contextType
  | .dot => type.isNamed contextType
  | .notImported => false

/-- What a command takes and returns. -/
structure Invocation where
  usesContext : Bool
  returnsError : Bool
deriving DecidableEq, Repr

inductive SignatureProblem where
  | tooManyParameters
  | notContext
  | badResults
deriving DecidableEq, Repr

def SignatureProblem.message : SignatureProblem → Text
  | .tooManyParameters => "must be niladic or accept context".toList
  | .notContext => "must accept context.Context".toList
  | .badResults => "must return only error".toList

/-- How a function is called, by its signature. -/
def Signature.invocation (context : ContextImport) (s : Signature) : Except SignatureProblem Invocation := do
  let usesContext ←
    match parameterTypes s.parameters with
    | [] => pure false
    | [some type] => if context.accepts type then pure true else throw .notContext
    | [none] => throw .notContext
    | _ => throw .tooManyParameters
  let returnsError ←
    match resultTypes s.result with
    | [] => pure false
    | [some type] => if type.isNamed "error".toList then pure true else throw .badResults
    | _ => throw .badResults
  return ⟨usesContext, returnsError⟩

/-- The value of a method that does nothing but return a string literal. -/
def MethodDecl.constantString (m : MethodDecl) : Option Text :=
  match parameterTypes m.signature.parameters, resultTypes m.signature.result, m.body with
  | [], [some type], some [.return_ [.string literal]] =>
    if type.isNamed "string".toList then stringValue literal else none
  | _, _, _ => none

end GoCommands.Go
