import GoCommands.FileSystem.Basic

/-!
# File systems on a disk

A disk holds files, directories and symbolic links below one root.  A path is followed step by step
through them from the root or from the working directory, so `..` goes back from where a link led.
Directories are always readable.
-/

namespace GoCommands

inductive DiskEntry where
  | file (contents : Bytes) (mode : Nat)
  | dir (mode : Nat)
  | link (target : Path)
deriving DecidableEq, Repr

structure Disk where
  /-- Everything below the root, each with the names that lead to it; each list of names occurs at
  most once. -/
  entries : List (List Text × DiskEntry)
  workingDir : List Text
deriving DecidableEq, Repr

namespace Disk

def noEntry : IoError := ⟨.notFound, "No such file or directory (os error 2)".toList⟩

def notDirectory : IoError := ⟨.notADirectory, "Not a directory (os error 20)".toList⟩

def isDirectory : IoError := ⟨.isADirectory, "Is a directory (os error 21)".toList⟩

def tooManyLinks : IoError := ⟨.filesystemLoop, "Too many levels of symbolic links (os error 40)".toList⟩

def nameTooLong : IoError := ⟨.invalidFilename, "File name too long (os error 36)".toList⟩

def busy : IoError := ⟨.resourceBusy, "Device or resource busy (os error 16)".toList⟩

def zeroByte : IoError := ⟨.invalidInput, "file name contained an unexpected NUL byte".toList⟩

/-- Greatest number of bytes in a name. -/
def nameLimit : Nat := 255

/-- Number of bytes from which on a path is too long. -/
def pathLimit : Nat := 4096

/-- Greatest number of links on one way. -/
def linkLimit : Nat := 40

def fileMode : Nat := 0o644

def dirMode : Nat := 0o755

def entry? (d : Disk) (names : List Text) : Option DiskEntry :=
  if names.isEmpty then some (.dir dirMode) else (d.entries.find? fun e => e.1 == names).map (·.2)

def isDir (d : Disk) (names : List Text) : Bool :=
  match d.entry? names with
  | some (.dir _) => true
  | _ => false

def put (d : Disk) (names : List Text) (entry : DiskEntry) : Disk :=
  if d.entries.any fun e => e.1 == names then
    { d with entries := d.entries.map fun e => if e.1 == names then (names, entry) else e }
  else { d with entries := d.entries ++ [(names, entry)] }

def remove (d : Disk) (names : List Text) : Disk :=
  { d with entries := d.entries.filter fun e => e.1 != names }

/-- Where a path ends. -/
inductive Place where
  | at (names : List Text) (entry : DiskEntry)
  /-- Nothing is there, in a directory that exists. -/
  | vacant (names : List Text)

/-- Goes from a place along the pieces of a path, through at most `links` links.  A link at the end is
only gone through on demand. -/
def follow (d : Disk) (throughLast : Bool) (links : Nat) (here : List Text) (pieces : List Text) :
    Except IoError Place :=
  match pieces with
  | [] =>
    match d.entry? here with
    | some entry => .ok (.at here entry)
    | none => .error noEntry
  | piece :: rest =>
    if !d.isDir here then .error notDirectory
    else if Text.byteSize piece > nameLimit then .error nameTooLong
    else if piece.isEmpty || piece == ['.'] then follow d throughLast links here rest
    else if piece == ['.', '.'] then follow d throughLast links here.dropLast rest
    else match d.entry? (here ++ [piece]) with
      | none => if rest.isEmpty then .ok (.vacant (here ++ [piece])) else .error noEntry
      | some (.link target) =>
        if rest.isEmpty && !throughLast then .ok (.at (here ++ [piece]) (.link target))
        else match links with
          | 0 => .error tooManyLinks
          | links + 1 =>
            follow d throughLast links (if Path.isAbsolute target then [] else here)
              (Text.splitAt '/' target ++ rest)
      | some _ => follow d throughLast links (here ++ [piece]) rest
termination_by (links, pieces.length)

def checkPath (p : Path) : Except IoError Unit :=
  if p.contains (Char.ofNat 0) then .error zeroByte
  else if p.isEmpty then .error noEntry
  else if Text.byteSize p ≥ pathLimit then .error nameTooLong
  else .ok ()

/-- Where a path starts. -/
def base (d : Disk) (p : Path) : List Text := if p.isAbsolute then [] else d.workingDir

def locate (d : Disk) (throughLast : Bool) (p : Path) : Except IoError Place := do
  checkPath p
  follow d throughLast linkLimit (d.base p) (Text.splitAt '/' p)

def bytes (d : Disk) (p : Path) : Except IoError Bytes := do
  match ← d.locate true p with
  | .at _ (.file contents _) => .ok contents
  | .at _ _ => .error isDirectory
  | .vacant _ => .error noEntry

/-- The kind of an entry, where links are not gone through. -/
def kindOf : DiskEntry → EntryKind
  | .file _ _ => .file
  | .dir _ => .dir
  | .link _ => .other

/-- The names behind other names. -/
def below? : (start names : List Text) → Option (List Text)
  | [], names => some names
  | _ :: _, [] => none
  | s :: start, n :: names => if s == n then below? start names else none

def entriesIn (d : Disk) (names : List Text) : List DirEntry :=
  d.entries.filterMap fun e =>
    match below? names e.1 with
    | some [name] => some ⟨name, kindOf e.2⟩
    | _ => none

def entriesOf (d : Disk) (p : Path) : Except IoError (List DirEntry) := do
  match ← d.locate true p with
  | .at names (.dir _) => .ok (d.entriesIn names)
  | .at _ _ => .error notDirectory
  | .vacant _ => .error noEntry

/-- Permissions, behind a link those of its target. -/
def mode (d : Disk) (p : Path) : Option Nat :=
  match d.locate true p with
  | .ok (.at _ (.file _ mode)) => some mode
  | .ok (.at _ (.dir mode)) => some mode
  | _ => none

def overwrite (d : Disk) (p : Path) (contents : Bytes) : Except IoError Disk := do
  match ← d.locate true p with
  | .at names (.file _ mode) => .ok (d.put names (.file contents mode))
  | .at _ _ => .error isDirectory
  | .vacant names => .ok (d.put names (.file contents fileMode))

def setMode (d : Disk) (p : Path) (mode : Nat) : Except IoError Disk := do
  match ← d.locate true p with
  | .at names (.file contents _) => .ok (d.put names (.file contents (mode % 0o10000)))
  | .at names (.dir _) => .ok (d.put names (.dir (mode % 0o10000)))
  | .at _ (.link _) => .error noEntry
  | .vacant _ => .error noEntry

/-- The last piece of a path and what stands before it; slashes at the end are left out, and the flag
says whether there were some. -/
def lastPiece (p : Path) : List Text × Text × Bool :=
  let pieces := (Text.splitAt '/' p).reverse
  match pieces.dropWhile List.isEmpty with
  | [] => ([], [], true)
  | last :: before => (before.reverse, last, pieces.head?.any List.isEmpty)

def renameTarget (d : Disk) (p : Path) : Except IoError (List Text) := do
  checkPath p
  let (before, last, slash) := lastPiece p
  match ← follow d true linkLimit (d.base p) before with
  | .at dir (.dir _) =>
    if last == ['.'] || last == ['.', '.'] || last.isEmpty then .error busy
    else if slash then .error notDirectory
    else if d.isDir (dir ++ [last]) then .error isDirectory
    else .ok (dir ++ [last])
  | .at _ _ => .error notDirectory
  | .vacant _ => .error noEntry

/-- The name under which a file is written before it is renamed. -/
def temporaryPath (p : Path) (name : Text) : Path :=
  Path.join (p.parent.getD []) ('.' :: name ++ ".tmp".toList)

def rename (d : Disk) (source target : Path) : Except IoError Disk := do
  match ← d.locate false source with
  | .vacant _ => .error noEntry
  | .at names entry => do
    let destination ← d.renameTarget target
    .ok ((d.remove names).put destination entry)

def unlink (d : Disk) (p : Path) : Disk :=
  match d.locate false p with
  | .ok (.at names _) => d.remove names
  | _ => d

/-- Writes a file beside its place and renames it, so no reader sees a part of it. -/
def writeFile (d : Disk) (p : Path) (contents : Bytes) (mode : Nat) : Disk × Except IoError Unit :=
  match p.fileName with
  | none => (d, .error ⟨.invalidInput, "not a file path: ".toList ++ p⟩)
  | some name =>
    let temporary := temporaryPath p name
    match d.overwrite temporary contents >>= fun d => d.setMode temporary mode with
    | .error cause => (d, .error cause)
    | .ok written =>
      match written.rename temporary p with
      | .error cause => (written.unlink temporary, .error cause)
      | .ok renamed => (renamed, .ok ())

def makeDir (d : Disk) (p : Path) : Disk :=
  match d.locate true p with
  | .ok (.vacant names) => d.put names (.dir dirMode)
  | _ => d

/-- A path without its last component, then again without the last, and so on, the shortest first. -/
def parents : (fuel : Nat) → Path → List Path
  | 0, _ => []
  | fuel + 1, p =>
    match p.parent with
    | none => []
    | some q => parents fuel q ++ [q]

def makeParents (d : Disk) (p : Path) : Disk := (parents (p.length + 1) p).foldl makeDir d

/-- Creates a directory with all directories above it. -/
def addDir (d : Disk) (p : Path) : Disk := (d.makeParents p).makeDir p

/-- Creates or overwrites a file, with all directories above it. -/
def addFile (d : Disk) (p : Path) (contents : Bytes) : Disk :=
  let d := d.makeParents p
  match d.overwrite p contents with
  | .ok d => d
  | .error _ => d

/-- Creates a symbolic link, with all directories above it. -/
def addLink (d : Disk) (p target : Path) : Disk :=
  let d := d.makeParents p
  match d.locate false p with
  | .ok (.vacant names) => d.put names (.link target)
  | _ => d

def empty (workingDir : Path) : Disk :=
  { (⟨[], []⟩ : Disk).addDir workingDir with
    workingDir := workingDir.components.filterMap fun
      | .name n => some n
      | _ => none }

def contents (d : Disk) (p : Path) : Option Text :=
  match d.bytes p with
  | .ok bytes => some (Utf8.decodeLossy bytes)
  | .error _ => none

/-- The files below the working directory, by their paths from there. -/
def paths (d : Disk) : List Path :=
  (d.entries.filterMap fun e =>
    match e.2 with
    | .file _ _ => (below? d.workingDir e.1).map (Text.joinWith ['/'])
    | _ => none).mergeSort Text.le

def fileSystem (d : Disk) : FileSystem := ⟨d.entriesOf, d.bytes⟩

instance : FileStore Disk := ⟨fileSystem, writeFile⟩

end Disk

end GoCommands
