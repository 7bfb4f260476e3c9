import GoCommands.Package.Model

/-!
# Listing packages

For each package a line with its name and directory, the first line of its comment, and a line for each
command: a star for types, the name, and the first line of the description.
-/

namespace GoCommands.Listing

def marker : CommandKind → Char
  | .function => ' '
  | .type => '*'

/-- A text with blanks behind it, up to a number of characters. -/
def padded (width : Nat) (t : Text) : Text := t ++ List.replicate (width - t.length) ' '

/-- Width of the column of names: that of the name with most bytes. -/
def width (commands : List CommandInfo) : Nat :=
  (commands.map fun c => Text.byteSize c.commandName).foldl max 0

def commandLine (width : Nat) (c : CommandInfo) : Text :=
  let summary := (Text.firstLine? c.description).getD []
  Text.trimEnd ([' ', ' ', marker c.kind] ++ padded width c.commandName ++ [' ', ' '] ++ summary) ++ ['\n']

def package (m : PackageModel) : Text :=
  m.packageName ++ [' ', '('] ++ m.dir ++ [')', '\n'] ++
    (match Text.firstLine? m.doc with
      | some line => [' ', ' '] ++ line ++ ['\n']
      | none => []) ++
    m.commands.flatMap (commandLine (width m.commands))

def packages (ms : List PackageModel) : Text := Text.joinWith ['\n'] (ms.map package)

end GoCommands.Listing
