import GoCommands.Path
import GoCommands.Text.Utf8

/-!
# File systems

What the walk, the scans and the generator ask of a file system: the entries of a directory, the bytes
of a file, and one write that replaces a file.
-/

namespace GoCommands

inductive IoKind where
  | notFound
  | notADirectory
  | isADirectory
  | invalidInput
  | filesystemLoop
  | invalidFilename
  | invalidData
  | resourceBusy
deriving DecidableEq, Repr

structure IoError where
  kind : IoKind
  message : Text
deriving DecidableEq, Repr

inductive EntryKind where
  | dir
  | file
  /-- Links and anything else that is ignored. -/
  | other
deriving DecidableEq, Repr

structure DirEntry where
  name : Text
  kind : EntryKind
deriving DecidableEq, Repr

/-- How a file system answers.  The entries of a directory come in any order. -/
structure FileSystem where
  entries : Path → Except IoError (List DirEntry)
  bytes : Path → Except IoError Bytes

/-- A state that files can be read from and written to. -/
class FileStore (σ : Type) where
  view : σ → FileSystem
  /-- Writes a whole file with its mode. -/
  writeFile : σ → Path → Bytes → Nat → σ × Except IoError Unit

/-- Entries by name; those of one name keep their order. -/
def sortEntries (entries : List DirEntry) : List DirEntry :=
  entries.mergeSort fun a b => Text.le a.name b.name

end GoCommands
