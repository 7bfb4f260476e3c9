import GoCommands.Walk

/-!
# Scanning a directory for functions to wrap

The generator needs the functions of a package and the names they must not clash with.  Methods do not
matter here, and types matter whether they are exported or not.
-/

namespace GoCommands

/-- An exported function that can be called as a command. -/
structure WrappedFunction where
  name : Text
  description : Option Text
  invocation : Go.Invocation
deriving DecidableEq, Repr

structure DirectoryScan where
  sourceFiles : List Path
  packageName : Option Text
  /-- Declared type names in order, each once. -/
  typeNames : List Text
  /-- Command names that subcommand fields take, in order, each once. -/
  claimedNames : List Text
  functions : List WrappedFunction
deriving DecidableEq, Repr

namespace DirectoryScan

def empty : DirectoryScan := ⟨[], none, [], [], []⟩

def insertName (name : Text) : List Text → List Text
  | [] => [name]
  | n :: rest =>
    if name < n then name :: n :: rest
    else if name == n then n :: rest
    else n :: insertName name rest

def recordType (s : DirectoryScan) (spec : Go.TypeSpec) : DirectoryScan :=
  { s with
    typeNames := insertName spec.name s.typeNames
    claimedNames := (SubcommandLink.ofType spec.name spec.type).foldl
      (fun names link => insertName link.name names) s.claimedNames }

def recordItem (s : DirectoryScan) (context : Go.ContextImport) (path : Path) (item : Go.Item) :
    Except DiscoverError DirectoryScan :=
  match item.declaration with
  | .types specs => .ok (specs.foldl recordType s)
  | .function f =>
    if CommandName.isExported f.name then
      match f.signature.invocation context with
      | .ok invocation => .ok { s with functions := s.functions ++ [⟨f.name, item.doc, invocation⟩] }
      | .error problem => .error (.invalidSignature f.name path problem)
    else .ok s
  | _ => .ok s

/-- The package of a file, if it has one, must be that of the files before. -/
def recordPackage (s : DirectoryScan) (dir : Path) (unit : Go.SourceFile) :
    Except DiscoverError DirectoryScan :=
  match unit.packageName, s.packageName with
  | none, _ => .ok s
  | some name, none => .ok { s with packageName := some name }
  | some name, some existing =>
    if existing == name then .ok s else .error (.multiplePackages dir existing name)

def scanFile (s : DirectoryScan) (dir path : Path) (content : Text) : Except DiscoverError DirectoryScan :=
  match Go.SourceFile.parse content with
  | none => .error (.badSource path)
  | some unit => do
    let s ← s.recordPackage dir unit
    let s ← unit.items.foldlM (fun s item => s.recordItem unit.contextImport path item) s
    .ok { s with sourceFiles := s.sourceFiles ++ [path] }

/-- Scans the source files among the entries of a directory. -/
def scanEntries (fs : FileSystem) (dir : Path) (tag : Option Text) (s : DirectoryScan) :
    List DirEntry → Except DiscoverError DirectoryScan
  | [] => .ok s
  | e :: rest =>
    if e.kind == .file && Walk.isSourceFile e.name then do
      let path := Path.join dir e.name
      match ← Walk.readTagged fs path tag with
      | none => scanEntries fs dir tag s rest
      | some content => scanEntries fs dir tag (← s.scanFile dir path content) rest
    else scanEntries fs dir tag s rest

/-- Scans the source files directly in a directory by name.  With a tag only the files that it selects
are scanned. -/
def ofDirectory (fs : FileSystem) (dir : Path) (tag : Option Text) : Except DiscoverError DirectoryScan :=
  match fs.entries dir with
  | .error cause => .error (.unreadableDirectory dir cause)
  | .ok entries => scanEntries fs dir tag empty (sortEntries entries)

def eligible (s : DirectoryScan) : List WrappedFunction :=
  (s.functions.filter fun f => !s.claimedNames.contains (CommandName.ofIdentifier f.name)).mergeSort
    fun a b => Text.le a.name b.name

end DirectoryScan

end GoCommands
