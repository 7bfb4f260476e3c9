import GoCommands.Toml.Parser
import GoCommands.FileSystem.Basic

/-!
# Project settings

A project can keep settings in a TOML file.  They stand between the command line and the values that
hold where nothing is given.
-/

namespace GoCommands

/-- Settings for generating wrappers. -/
structure GenerateSettings where
  dir : Option Path
  onlyTagged : Option Bool
deriving DecidableEq, Repr

structure Settings where
  root : Option Path
  tag : Option Text
  multiPackage : Option Bool
  skipHidden : Option Bool
  generate : GenerateSettings
deriving DecidableEq, Repr

inductive SettingsError where
  /-- A file that was asked for does not exist. -/
  | missing (path : Path)
  | unreadable (path : Path) (cause : IoError)
  /-- The file has no settings in it. -/
  | malformed (path : Path)
deriving DecidableEq, Repr

namespace SettingsError

def message : SettingsError → Text
  | missing path => "config file ".toList ++ path ++ " does not exist".toList
  | unreadable path _ => "failed to read config ".toList ++ path
  | malformed path => "failed to parse config ".toList ++ path

end SettingsError

namespace GenerateSettings

def empty : GenerateSettings := ⟨none, none⟩

def setField (s : GenerateSettings) : Text × Toml.Value → Option GenerateSettings
  | (key, v) =>
    match String.ofList key, v with
    | "dir", .text t => some { s with dir := some t }
    | "only_tagged", .flag b => some { s with onlyTagged := some b }
    | _, _ => none

/-- The settings of a table; an array gives them in their order, and what follows them does not matter. -/
def ofValue : Toml.Value → Option GenerateSettings
  | .table _ fields => fields.foldlM setField empty
  | .array [] => some empty
  | .array [.text dir] => some ⟨some dir, none⟩
  | .array (.text dir :: .flag onlyTagged :: _) => some ⟨some dir, some onlyTagged⟩
  | _ => none

end GenerateSettings

namespace Settings

def fileName : Text := "gantry.toml".toList

def empty : Settings := ⟨none, none, none, none, GenerateSettings.empty⟩

def setField (s : Settings) : Text × Toml.Value → Option Settings
  | (key, v) =>
    match String.ofList key, v with
    | "root", .text t => some { s with root := some t }
    | "tag", .text t => some { s with tag := some t }
    | "multi_package", .flag b => some { s with multiPackage := some b }
    | "skip_hidden_dirs", .flag b => some { s with skipHidden := some b }
    | "generate", v => (GenerateSettings.ofValue v).map fun g => { s with generate := g }
    | _, _ => none

/-- The settings of a document; none if it is no TOML or has anything else in it. -/
def parse (t : Text) : Option Settings := (Toml.parse t).bind fun table => table.foldlM setField empty

/-- Settings whose paths are taken from a directory. -/
def inDirectory (s : Settings) (dir : Path) : Settings :=
  { s with
    root := s.root.map (Path.join dir)
    generate := { s.generate with dir := s.generate.dir.map (Path.join dir) } }

def isFile (fs : FileSystem) (path : Path) : Bool :=
  match fs.bytes path with
  | .ok _ => true
  | .error _ => false

/-- Reads a file of settings.  Its paths are relative to its directory. -/
def load (fs : FileSystem) (path : Path) : Except SettingsError Settings :=
  match fs.bytes path with
  | .error cause => .error (.unreadable path cause)
  | .ok bytes =>
    match Utf8.decode bytes with
    | .error _ => .error (.unreadable path ⟨.invalidData, "stream did not contain valid UTF-8".toList⟩)
    | .ok text =>
      match parse text with
      | none => .error (.malformed path)
      | some s => .ok (s.inDirectory (path.parent.getD []))

/-- The settings of a run in a directory: those of a file that is asked for, or else those of the
directory, if it has any. -/
def resolve (fs : FileSystem) (asked : Option Path) (dir : Path) : Except SettingsError Settings :=
  match asked with
  | some path => if isFile fs path then load fs path else .error (.missing path)
  | none =>
    let path := Path.join dir fileName
    if isFile fs path then load fs path else .ok empty

end Settings

end GoCommands
