import GoCommands.Package.Scan
import GoCommands.Package.Model

/-!
# Assembling the command model

A struct type becomes a command if it can be run or has subcommands, and no link has it as a child.  An
exported function becomes a command unless a link has its command name or a type of the package wraps
it.  No two commands may have the same command name.
-/

namespace GoCommands

/-- A type with this suffix behind the name of a function wraps the function. -/
def wrapperSuffix : Text := "Command".toList

namespace PackageScan

def isLinkedType (s : PackageScan) (name : Text) : Bool := s.links.any (·.childType == name)

def isLinkedName (s : PackageScan) (commandName : Text) : Bool := s.links.any (·.name == commandName)

/-- The `Run` method scanned last for a type. -/
def runMethod (s : PackageScan) (name : Text) : Option Go.Invocation := s.runMethods.lookup name

/-- The commands found so far.  A description is used up by the first type that takes it. -/
structure Promotion where
  types : List CommandInfo
  functions : List CommandInfo
  descriptions : List (Text × Text)

def promote (s : PackageScan) (p : Promotion) : Candidate → Promotion
  | .type name file hasSubcommands =>
    if s.isLinkedType name || ((s.runMethod name).isNone && !hasSubcommands) then p
    else
      let command : CommandInfo :=
        { name, kind := .type, file
          description := (p.descriptions.lookup name).getD []
          invocation := (s.runMethod name).getD ⟨false, false⟩ }
      { p with
        types := command.insert p.types
        descriptions := p.descriptions.filter fun d => d.1 != name }
  | .function name file description invocation =>
    if s.isLinkedName (CommandName.ofIdentifier name) then p
    else
      let command : CommandInfo := { name, kind := .function, file, description, invocation }
      { p with functions := command.insert p.functions }

def promoted (s : PackageScan) : Promotion := s.candidates.foldl s.promote ⟨[], [], s.descriptions⟩

/-- A type of the package wraps the function. -/
def isWrapped (types : List CommandInfo) (function : CommandInfo) : Bool :=
  types.any fun t => t.name == function.name ++ wrapperSuffix

/-- The first identifier whose command name an earlier, different one has. -/
def collision : (earlier later : List CommandInfo) → Option DiscoverError
  | _, [] => none
  | earlier, c :: rest =>
    match earlier.find? (·.commandName == c.commandName) with
    | some other =>
      if other.name == c.name then collision earlier rest
      else some (.duplicateCommand c.commandName other.name c.name)
    | none => collision (earlier ++ [c]) rest

def distinctPaths : List Path → List Path
  | p :: q :: rest => if p.same q then distinctPaths (p :: rest) else p :: distinctPaths (q :: rest)
  | paths => paths
termination_by paths => paths.length

def filesOf : List CommandInfo → List Path
  | [] => []
  | c :: rest => c.file :: (filesOf rest).filter fun p => !p.same c.file

def indexByFile (commands : List CommandInfo) : List FileInfo :=
  ((filesOf commands).mergeSort Path.le).map fun p =>
    ⟨p, p.fileName.getD p, commands.filter fun c => c.file.same p⟩

def finish (s : PackageScan) : Except DiscoverError PackageModel :=
  if !s.entryPoints.isEmpty then
    .error (.entryPoint (distinctPaths (s.entryPoints.mergeSort Path.le)))
  else
    let found := s.promoted
    let functions := found.functions.filter fun f => !isWrapped found.types f
    match collision [] (found.types ++ functions) with
    | some e => .error e
    | none =>
      let commands := (found.types ++ functions).mergeSort CommandInfo.le
      .ok { dir := s.dir
            packageName := s.packageName.getD []
            doc := s.doc
            commands
            files := indexByFile commands }

def build (dir : Path) (files : List TaggedFile) : Except DiscoverError PackageModel := do
  (← (new dir).scanFiles files).finish

end PackageScan

end GoCommands
