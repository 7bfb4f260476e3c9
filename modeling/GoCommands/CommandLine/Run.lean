import GoCommands.CommandLine.Listing
import GoCommands.CommandLine.Options
import GoCommands.Json

/-!
# Running a command line
-/

namespace GoCommands

/-- What a run takes from the environment. -/
structure Environment where
  /-- Absolute path of the working directory. -/
  workingDir : Path
  /-- File of settings, for a command line without one. -/
  config : Option Text
deriving DecidableEq, Repr

inductive RunError where
  | refused (reason : CommandLine.Refusal)
  | settings (cause : SettingsError)
  | discovery (dir : Path) (cause : DiscoverError)
  | generation (dir : Path) (cause : GenerateError)
  /-- The walk did not end within the given number of directories. -/
  | endless (dir : Path)
deriving DecidableEq, Repr

namespace RunError

def message : RunError → Text
  | refused _ => "invalid command line".toList
  | settings cause => cause.message
  | discovery dir _ => "discovery failed in ".toList ++ dir
  | generation dir _ => "generation failed in ".toList ++ dir
  | endless dir => "discovery does not end in ".toList ++ dir

def ioMessages (cause : Option IoError) : List Text := cause.toList.map IoError.message

def causes : RunError → List Text
  | refused _ => []
  | settings (.unreadable _ cause) => [cause.message]
  | settings (.malformed _) => ["invalid settings".toList]
  | settings (.missing _) => []
  | discovery _ cause => cause.message :: ioMessages cause.ioCause
  | generation _ cause => cause.message :: ioMessages cause.ioCause
  | endless _ => []

/-- A cause on lines of its own: the first line begins with `first`, the others with `others`. -/
def indented (first others cause : Text) : Text :=
  first ++ Text.joinWith ('\n' :: others) (Text.splitAt '\n' cause)

/-- A number in a column of five characters. -/
def numbered (n : Nat) : Text :=
  let digits := (toString n).toList
  List.replicate (5 - digits.length) ' ' ++ digits ++ [':', ' ']

/-- Causes as they are reported: one cause is indented, several are numbered. -/
def causeReport : List Text → Text
  | [cause] => indented (List.replicate 4 ' ') (List.replicate 4 ' ') cause
  | causes =>
    Text.joinWith ['\n'] ((List.range causes.length).zip causes |>.map fun (n, cause) =>
      indented (numbered n) (List.replicate 7 ' ') cause)

def report (e : RunError) : Text :=
  "Error: ".toList ++ e.message ++
    (if e.causes.isEmpty then [] else "\n\nCaused by:\n".toList ++ causeReport e.causes) ++ ['\n']

def code : RunError → Nat
  | refused .displayHelp => 0
  | refused .displayVersion => 0
  | refused _ => 2
  | _ => 1

end RunError

namespace CommandLine

def versionLine : Text := "gantry 0.1.0\n".toList

/-- The file to name in a run that wrote one, or else the directory. -/
def generated (dir : Path) : Option Path → Text
  | some path => "Wrote ".toList ++ path ++ ['\n']
  | none => "Nothing to generate in ".toList ++ dir ++ ['\n']

def discovered (options : DiscoverOptions) (json : Bool) (ms : List PackageModel) : Text :=
  if json then Json.render 0 (Json.ofModels ms) ++ ['\n']
  else if ms.isEmpty then
    "No files tagged '".toList ++ options.walk.buildTag ++ "' under ".toList ++ options.startDir ++ ['\n']
  else Listing.packages ms

def execute [FileStore σ] (fuel : Nat) (s : σ) (c : CommandLine) (settings : Settings) :
    σ × Except RunError Text :=
  match c.command with
  | .discover root multiPackage includeHidden json =>
    let options := DiscoverOptions.ofSettings root multiPackage includeHidden c.tag settings
    match discover fuel (FileStore.view s) options with
    | none => (s, .error (.endless options.startDir))
    | some (.error e) => (s, .error (.discovery options.startDir e))
    | some (.ok ms) => (s, .ok (discovered options json ms))
  | .generate dir onlyTagged noTag =>
    let options := GenerateOptions.ofSettings dir onlyTagged noTag c.tag settings
    match generate s options with
    | (s, .error e) => (s, .error (.generation options.dir e))
    | (s, .ok path) => (s, .ok (generated options.dir path))

/-- Runs a command line.  Gives the files afterwards and what is printed.  A discovery visits at most
`fuel` directories. -/
def run [FileStore σ] (fuel : Nat) (environment : Environment) (s : σ) (words : List Text) :
    σ × Except RunError Text :=
  match parse environment.config words with
  | .error .displayVersion => (s, .ok versionLine)
  | .error reason => (s, .error (.refused reason))
  | .ok c =>
    match Settings.resolve (FileStore.view s) c.config environment.workingDir with
    | .error e => (s, .error (.settings e))
    | .ok settings => execute fuel s c settings

end CommandLine

end GoCommands
