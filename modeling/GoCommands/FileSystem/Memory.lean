import GoCommands.FileSystem.Basic

/-!
# File systems in memory

Files and directories are stored under their normalized paths.  All directories above a file exist once
it has been added.
-/

namespace GoCommands

structure StoredFile where
  contents : Bytes
  mode : Nat
deriving DecidableEq, Repr

structure MemoryFiles where
  /-- Files by path, each path at most once. -/
  files : List (Path × StoredFile)
  dirs : List Path
deriving DecidableEq, Repr

namespace MemoryFiles

def empty : MemoryFiles := ⟨[], []⟩

def defaultMode : Nat := 0o644

def file? (s : MemoryFiles) (p : Path) : Option StoredFile :=
  (s.files.find? fun f => f.1 == p).map (·.2)

def isDir (s : MemoryFiles) (p : Path) : Bool := s.dirs.contains p

def addDirectory (s : MemoryFiles) (p : Path) : MemoryFiles :=
  if s.isDir p then s else { s with dirs := s.dirs ++ [p] }

/-- Puts a file in place of one with the same path. -/
def putFile (s : MemoryFiles) (p : Path) (f : StoredFile) : MemoryFiles :=
  if s.files.any fun g => g.1 == p then
    { s with files := s.files.map fun g => if g.1 == p then (p, f) else g }
  else { s with files := s.files ++ [(p, f)] }

/-- The directories above a path, from the closest on. -/
def ancestors : (fuel : Nat) → Path → List Path
  | 0, _ => []
  | fuel + 1, p =>
    match p.directory with
    | none => []
    | some d => d :: ancestors fuel d

def addAncestors (s : MemoryFiles) (p : Path) : MemoryFiles :=
  (ancestors (p.length + 1) p).foldl addDirectory s

def addFile (s : MemoryFiles) (p : Path) (contents : Bytes) : MemoryFiles :=
  let p := p.normalize
  (s.addAncestors p).putFile p ⟨contents, defaultMode⟩

def addDir (s : MemoryFiles) (p : Path) : MemoryFiles :=
  let p := p.normalize
  (s.addAncestors p).addDirectory p

/-- Writes a file into an existing directory. -/
def writeFile (s : MemoryFiles) (p : Path) (contents : Bytes) (mode : Nat) :
    MemoryFiles × Except IoError Unit :=
  let p := p.normalize
  if p.directory.any s.isDir then (s.putFile p ⟨contents, mode⟩, .ok ())
  else (s, .error ⟨.notFound, "parent directory missing for ".toList ++ p⟩)

def bytes (s : MemoryFiles) (p : Path) : Except IoError Bytes :=
  let p := p.normalize
  match s.file? p with
  | some f => .ok f.contents
  | none => .error ⟨.notFound, "no such file: ".toList ++ p⟩

/-- The entry of a stored path in its directory; `..` has no name there. -/
def entryOf (kind : EntryKind) (p : Path) : DirEntry := ⟨p.fileName.getD [], kind⟩

def entries (s : MemoryFiles) (p : Path) : Except IoError (List DirEntry) :=
  let p := p.normalize
  if s.isDir p then
    .ok ((s.dirs.filter fun d => d.directory == some p).map (entryOf .dir) ++
      ((s.files.map (·.1)).filter fun f => f.directory == some p).map (entryOf .file))
  else .error ⟨.notFound, "no such directory: ".toList ++ p⟩

def contents (s : MemoryFiles) (p : Path) : Option Text :=
  (s.file? p.normalize).map fun f => Utf8.decodeLossy f.contents

def mode (s : MemoryFiles) (p : Path) : Option Nat := (s.file? p.normalize).map StoredFile.mode

def paths (s : MemoryFiles) : List Path := (s.files.map (·.1)).mergeSort Path.le

def fileSystem (s : MemoryFiles) : FileSystem := ⟨s.entries, s.bytes⟩

instance : FileStore MemoryFiles := ⟨fileSystem, writeFile⟩

end MemoryFiles

end GoCommands
