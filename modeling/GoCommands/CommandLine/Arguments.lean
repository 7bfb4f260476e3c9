import GoCommands.CommandLine.LogLevel
import GoCommands.Path

/-!
# Command lines

A command line has options for all commands, a command, and options and an operand for that command.
The options for all commands may stand before the command and behind it; what stands behind it wins.
An option is one word, and if it takes a value that is the next word or, after `=`, the rest of its own.
Short options can be put together in one word.  After `--` every word is an operand.
-/

namespace GoCommands

/-- What a run is to do. -/
inductive Command where
  | discover (root : Option Path) (multiPackage includeHidden json : Bool)
  | generate (dir : Option Path) (onlyTagged noTag : Bool)
deriving DecidableEq, Repr

structure CommandLine where
  config : Option Path
  tag : Option Text
  level : Option LogLevel
  verbose : Bool
  trace : Bool
  command : Command
deriving DecidableEq, Repr

namespace CommandLine

/-- Why a command line is not run. -/
inductive Refusal where
  | displayHelp
  | displayVersion
  | nothingGiven
  | missingSubcommand
  | invalidSubcommand
  | unknownArgument
  /-- An option is repeated, or excludes another one. -/
  | argumentConflict
  | invalidValue
  /-- An option without value has one. -/
  | tooManyValues
deriving DecidableEq, Repr

/-- The part of a command line: before the command, or behind one. -/
inductive Scope where
  | top
  | discover
  | generate
deriving DecidableEq, Repr

inductive Argument where
  | config
  | tag
  | logLevel
  | verbose
  | trace
  | multiPackage
  | includeHidden
  | json
  | onlyTagged
  | noTag
  | help
  | version
  /-- The directory of a command, which has no name. -/
  | directory
deriving DecidableEq, Repr

namespace Argument

def takesValue : Argument → Bool
  | config | tag | logLevel | directory => true
  | _ => false

def accepts : Argument → Text → Bool
  | config, value | directory, value => !value.isEmpty
  | logLevel, value => (LogLevel.ofName? value).isSome
  | _, _ => true

def long (scope : Scope) (name : Text) : Option Argument :=
  match String.ofList name, scope with
  | "config", _ => some config
  | "tag", _ => some tag
  | "log-level", _ => some logLevel
  | "verbose", _ => some verbose
  | "trace", _ => some trace
  | "help", _ => some help
  | "version", .top => some version
  | "multi-package", .discover => some multiPackage
  | "include-hidden", .discover => some includeHidden
  | "json", .discover => some json
  | "only-tagged", .generate => some onlyTagged
  | "no-tag", .generate => some noTag
  | _, _ => none

def short (scope : Scope) (letter : Char) : Option Argument :=
  match letter, scope with
  | 'c', _ => some config
  | 't', _ => some tag
  | 'v', _ => some verbose
  | 'h', _ => some help
  | 'V', .top => some version
  | 'm', .discover => some multiPackage
  | _, _ => none

end Argument

/-- Commands, and the one that explains the others. -/
inductive Subcommand where
  | discover
  | generate
  | help
deriving DecidableEq, Repr

namespace Subcommand

def ofName? (name : Text) : Option Subcommand :=
  match String.ofList name with
  | "discover" | "ls" => some discover
  | "generate" | "gen" => some generate
  | "help" => some help
  | _ => none

end Subcommand

/-- How far a part of a command line has been read. -/
structure Reading where
  given : List (Argument × Text)
  /-- An argument with its value, if that has been read. -/
  pending : Option (Argument × Option Text)
  /-- The next word is the value of the pending argument, unless it is an option. -/
  awaiting : Bool
  /-- `--` has been read. -/
  operandsOnly : Bool
deriving DecidableEq, Repr

namespace Reading

def start : Reading := ⟨[], none, false, false⟩

def value? (r : Reading) (a : Argument) : Option Text := (r.given.find? fun g => g.1 == a).map (·.2)

def has (r : Reading) (a : Argument) : Bool := (r.value? a).isSome

def give (r : Reading) (a : Argument) (value : Text) : Except Refusal Reading :=
  if r.has a then .error .argumentConflict
  else if a.accepts value then .ok { r with given := r.given ++ [(a, value)], awaiting := false }
  else .error .invalidValue

/-- Takes the pending argument as given. -/
def settle (r : Reading) : Except Refusal Reading :=
  match r.pending with
  | none => .ok r
  | some (_, none) => .error .invalidValue
  | some (a, some value) => ({ r with pending := none }).give a value

def await (r : Reading) (a : Argument) (value : Option Text) : Reading :=
  { r with pending := some (a, value), awaiting := value.isNone }

def giveFlag (r : Reading) (a : Argument) : Except Refusal Reading := do
  let r ← r.settle
  match a with
  | .help => .error .displayHelp
  | .version => .error .displayVersion
  | _ => r.give a []

/-- An argument that takes a value, with the value if it is part of the same word. -/
def giveValue (r : Reading) (a : Argument) : Option Text → Except Refusal Reading
  | some value => do (← r.settle).give a value
  | none => do return (← r.settle).await a none

/-- The word `--name` or `--name=value`. -/
def longWord (r : Reading) (scope : Scope) (name : Text) (value : Option Text) : Except Refusal Reading :=
  match Argument.long scope name with
  | none => .error .unknownArgument
  | some a =>
    if a.takesValue then r.giveValue a value
    else if value.isSome then .error .tooManyValues
    else r.giveFlag a

/-- The letters of a word that starts with one hyphen.  A letter that takes a value has the rest of the
word as its value, without `=` in front. -/
def shortWord (r : Reading) (scope : Scope) : Text → Except Refusal Reading
  | [] => .ok r
  | letter :: rest =>
    match Argument.short scope letter with
    | none => .error .unknownArgument
    | some a =>
      if a.takesValue then
        r.giveValue a (match rest with
          | [] => none
          | '=' :: value => some value
          | value => some value)
      else do (← r.giveFlag a).shortWord scope rest

/-- A word that belongs to no option. -/
def operand (r : Reading) (scope : Scope) (word : Text) : Except Refusal Reading :=
  match scope with
  | .top =>
    .error (if r.operandsOnly && (Subcommand.ofName? word).isSome then .unknownArgument
      else .invalidSubcommand)
  | _ =>
    if r.has .directory || r.pending.any (·.1 == .directory) then .error .unknownArgument
    else do return { (← r.settle).await .directory (some word) with awaiting := false }

def word (r : Reading) (scope : Scope) (t : Text) : Except Refusal Reading :=
  match t with
  | '-' :: '-' :: name =>
    match Text.splitOnce? '=' name with
    | some (name, value) => r.longWord scope name (some value)
    | none => r.longWord scope name none
  | '-' :: letter :: letters => r.shortWord scope (letter :: letters)
  | _ =>
    match r.awaiting, r.pending with
    | true, some (a, _) => .ok { r with pending := some (a, some t), awaiting := false }
    | _, _ => r.operand scope t

/-- Reads words up to a command, which only stands at the top. -/
def words (scope : Scope) : Reading → List Text →
    Except Refusal (Reading × Option (Subcommand × List Text))
  | r, [] => .ok (r, none)
  | r, t :: rest =>
    if r.operandsOnly then do words scope (← r.operand scope t) rest
    else match if scope == .top && !r.awaiting then Subcommand.ofName? t else none with
      | some command => .ok (r, some (command, rest))
      | none =>
        if t == ['-', '-'] then words scope { r with operandsOnly := true } rest
        else do words scope (← r.word scope t) rest

end Reading

/-- What `help` does with the words behind it: at most one, which names a command. -/
def helpRefusal : List Text → Refusal
  | [] => .displayHelp
  | [name] => if (Subcommand.ofName? name).isSome then .displayHelp else .invalidSubcommand
  | _ => .invalidSubcommand

/-- The environment names the file of settings where the part does not, but not by an empty text. -/
def checkEnvironment (config : Option Text) (r : Reading) : Except Refusal Unit :=
  match config with
  | some value => if r.has .config || Argument.accepts .config value then .ok () else .error .invalidValue
  | none => .ok ()

/-- The value of an argument from behind the command, or else from before it. -/
def valueOf (top inner : Reading) (a : Argument) : Option Text := (inner.value? a).or (top.value? a)

def commandOf (environment : Option Text) (scope : Scope) (words : List Text) :
    Except Refusal Reading := do
  let (r, _) ← Reading.words scope Reading.start words
  let r ← r.settle
  checkEnvironment environment r
  if r.has .onlyTagged && r.has .noTag then .error .argumentConflict
  .ok r

def combine (environment : Option Text) (top inner : Reading) (command : Command) : CommandLine :=
  { config := (valueOf top inner .config).or environment
    tag := valueOf top inner .tag
    level := (valueOf top inner .logLevel).bind LogLevel.ofName?
    verbose := top.has .verbose || inner.has .verbose
    trace := top.has .trace || inner.has .trace
    command }

/-- Reads a command line.  `environment` is the file of settings that the environment names. -/
def parse (environment : Option Text) (words : List Text) : Except Refusal CommandLine := do
  let (top, command) ← Reading.words .top Reading.start words
  let finish (inner : Reading) (command : Command) : Except Refusal CommandLine := do
    let top ← top.settle
    checkEnvironment environment top
    .ok (combine environment top inner command)
  match command with
  | some (.help, rest) => .error (helpRefusal rest)
  | some (.discover, rest) => do
    let inner ← commandOf environment .discover rest
    finish inner (.discover (inner.value? .directory) (inner.has .multiPackage)
      (inner.has .includeHidden) (inner.has .json))
  | some (.generate, rest) => do
    let inner ← commandOf environment .generate rest
    finish inner (.generate (inner.value? .directory) (inner.has .onlyTagged) (inner.has .noTag))
  | none => do
    let top ← top.settle
    checkEnvironment environment top
    .error (if top.given.isEmpty && environment.isNone then .nothingGiven else .missingSubcommand)

/-- The level of the log: from the options, the strongest first, or else from the environment. -/
def logLevel (c : CommandLine) (environment : Option Text) : LogLevel :=
  if c.trace then .trace
  else if c.verbose then .debug
  else match c.level with
    | some level => level
    | none => (environment.bind LogLevel.ofText?).getD LogLevel.standard

end CommandLine

end GoCommands
