import GoCommands.Go.Invocation
import GoCommands.Path
import GoCommands.CommandName

/-!
# The command model of a package
-/

namespace GoCommands

inductive CommandKind where
  /-- A function that is called. -/
  | function
  /-- A struct type that is run. -/
  | type
deriving DecidableEq, Repr

structure CommandInfo where
  name : Text
  kind : CommandKind
  file : Path
  description : Text
  invocation : Go.Invocation
deriving DecidableEq, Repr

namespace CommandInfo

/-- Name on the command line. -/
def commandName (c : CommandInfo) : Text := CommandName.ofIdentifier c.name

def le (a b : CommandInfo) : Bool := Text.le a.name b.name

/-- Puts a command among commands in the order of their identifiers; it replaces one with the same
identifier. -/
def insert (c : CommandInfo) : List CommandInfo → List CommandInfo
  | [] => [c]
  | d :: ds =>
    if c.name < d.name then c :: d :: ds
    else if c.name == d.name then c :: ds
    else d :: insert c ds

end CommandInfo

/-- The commands that one file declares. -/
structure FileInfo where
  path : Path
  /-- File name without directory. -/
  baseName : Text
  commands : List CommandInfo
deriving DecidableEq, Repr

structure PackageModel where
  dir : Path
  packageName : Text
  doc : Text
  /-- In the order of their identifiers. -/
  commands : List CommandInfo
  files : List FileInfo
deriving DecidableEq, Repr

namespace PackageModel

/-- Halves the range of `size` commands from `base` on until one is left. -/
def narrow (commands : List CommandInfo) (name : Text) : (fuel base size : Nat) → Nat
  | 0, base, _ => base
  | fuel + 1, base, size =>
    if size ≤ 1 then base
    else
      let half := size / 2
      let middle := base + half
      let base := if (commands[middle]?).any fun c => name < c.name then base else middle
      narrow commands name fuel base (size - half)

/-- The command with this identifier, by binary search. -/
def command (m : PackageModel) (name : Text) : Option CommandInfo :=
  (m.commands[narrow m.commands name m.commands.length 0 m.commands.length]?).filter (·.name == name)

/-- The first command with this name on the command line. -/
def findByCommandName (m : PackageModel) (commandName : Text) : Option CommandInfo :=
  m.commands.find? (·.commandName == commandName)

def commandsOfKind (m : PackageModel) (kind : CommandKind) : List CommandInfo :=
  m.commands.filter (·.kind == kind)

end PackageModel

end GoCommands
