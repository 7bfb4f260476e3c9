import GoCommands.Error
import GoCommands.Go.DocComment
import GoCommands.Go.Parser
import GoCommands.Package.Subcommand

/-!
# Scanning the files of a package

A scan collects what the files of one directory declare.  Whether a declaration becomes a command
depends on the whole package, so nothing is decided here.  A file that fails leaves what was recorded
before the failure.
-/

namespace GoCommands

structure TaggedFile where
  path : Path
  content : Text
deriving DecidableEq, Repr

/-- A declaration that may become a command. -/
inductive Candidate where
  | function (name : Text) (file : Path) (description : Text) (invocation : Go.Invocation)
  | type (name : Text) (file : Path) (hasSubcommands : Bool)
deriving DecidableEq, Repr

/-- What was found in the files so far. -/
structure PackageScan where
  dir : Path
  packageName : Option Text
  doc : Text
  candidates : List Candidate
  links : List SubcommandLink
  /-- The `Run` methods by receiver, the last one first. -/
  runMethods : List (Text × Go.Invocation)
  /-- The constant `Description` methods by receiver, the last one first. -/
  descriptions : List (Text × Text)
  /-- Files with a function `main`, once for each. -/
  entryPoints : List Path
deriving DecidableEq, Repr

namespace PackageScan

def new (dir : Path) : PackageScan := ⟨dir, none, [], [], [], [], [], []⟩

/-- Name of the function that starts a program, which no tagged file may declare. -/
def entryPointName : Text := "main".toList

/-- Method that makes a type runnable. -/
def runMethodName : Text := "Run".toList

/-- Method whose constant value describes a type. -/
def descriptionMethodName : Text := "Description".toList

/-- The package of a file must be that of the files before; the first file documents it. -/
def recordPackage (s : PackageScan) (path : Path) (unit : Go.SourceFile) :
    Except DiscoverError PackageScan :=
  match unit.packageName, s.packageName with
  | none, _ => .error (.missingPackage path)
  | some name, none => .ok { s with packageName := some name, doc := unit.packageDoc.getD [] }
  | some name, some existing =>
    if existing == name then .ok s else .error (.multiplePackages s.dir existing name)

/-- Exported struct types are candidates.  Aliases are not. -/
def recordType (s : PackageScan) (path : Path) (spec : Go.TypeSpec) : PackageScan :=
  match spec.type with
  | .struct fields _ =>
    if !spec.isAlias && CommandName.isExported spec.name then
      let links := SubcommandLink.ofFields spec.name fields
      { s with
        links := s.links ++ links
        candidates := s.candidates ++ [.type spec.name path (!links.isEmpty)] }
    else s
  | _ => s

/-- A `Run` method of an unusual shape still makes its type runnable. -/
def runInvocation (context : Go.ContextImport) (m : Go.MethodDecl) : Go.Invocation :=
  match m.signature.invocation context with
  | .ok invocation => invocation
  | .error _ => ⟨false, false⟩

def recordMethod (s : PackageScan) (context : Go.ContextImport) (m : Go.MethodDecl) : PackageScan :=
  match Go.receiverName m.receiver with
  | none => s
  | some receiver =>
    if m.name == runMethodName then
      { s with runMethods := (receiver, runInvocation context m) :: s.runMethods }
    else if m.name == descriptionMethodName then
      match m.constantString with
      | some text => { s with descriptions := (receiver, Text.trim text) :: s.descriptions }
      | none => s
    else s

def recordFunction (s : PackageScan) (context : Go.ContextImport) (path : Path) (doc : Option Text)
    (f : Go.FunctionDecl) : Except DiscoverError PackageScan :=
  if f.name == entryPointName then .ok { s with entryPoints := s.entryPoints ++ [path] }
  else if CommandName.isExported f.name then
    match f.signature.invocation context with
    | .ok invocation =>
      .ok { s with candidates := s.candidates ++ [.function f.name path (doc.getD []) invocation] }
    | .error problem => .error (.invalidSignature f.name path problem)
  else .ok s

def recordItem (s : PackageScan) (context : Go.ContextImport) (path : Path) (item : Go.Item) :
    Except DiscoverError PackageScan :=
  match item.declaration with
  | .types specs => .ok (specs.foldl (·.recordType path) s)
  | .method m => .ok (s.recordMethod context m)
  | .function f => s.recordFunction context path item.doc f
  | _ => .ok s

/-- Records items up to the first that fails. -/
def recordItems (s : PackageScan) (context : Go.ContextImport) (path : Path) :
    List Go.Item → PackageScan × Option DiscoverError
  | [] => (s, none)
  | item :: rest =>
    match s.recordItem context path item with
    | .ok s => s.recordItems context path rest
    | .error e => (s, some e)

/-- Adds the declarations of a file.  The error, if any, comes with what had been recorded. -/
def scanFile (s : PackageScan) (file : TaggedFile) : PackageScan × Option DiscoverError :=
  match Go.SourceFile.parse file.content with
  | none => (s, some (.badSource file.path))
  | some unit =>
    match s.recordPackage file.path unit with
    | .error e => (s, some e)
    | .ok s => s.recordItems unit.contextImport file.path unit.items

/-- Scans files up to the first that fails. -/
def scanFiles (s : PackageScan) : List TaggedFile → Except DiscoverError PackageScan
  | [] => .ok s
  | file :: rest =>
    match s.scanFile file with
    | (s, none) => s.scanFiles rest
    | (_, some e) => .error e

end PackageScan

end GoCommands
