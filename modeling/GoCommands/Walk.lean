import GoCommands.Constraint.Header
import GoCommands.Package.Scan

/-!
# Walking a directory tree

The walk goes through the directories level by level and collects those with tagged files.  With one
package asked for, it ends after the first level that has one.
-/

namespace GoCommands

/-- A directory with at least one tagged file. -/
structure TaggedDir where
  path : Path
  /-- Distance from the start of the walk. -/
  depth : Nat
  /-- The tagged files by name. -/
  files : List TaggedFile
deriving DecidableEq, Repr

structure WalkOptions where
  buildTag : Text
  /-- Look at the whole tree and accept several tagged directories. -/
  multiPackage : Bool
  skipHidden : Bool
deriving DecidableEq, Repr

namespace Walk

/-- Directories that are never walked into. -/
def skippedDirs : List Text :=
  [".git".toList, ".hg".toList, ".svn".toList, "vendor".toList, "node_modules".toList]

def sourceExtension : Text := ".go".toList

def testSuffix : Text := "_test.go".toList

/-- Start of the names of generated files. -/
def generatedStart (tag : Text) : Text := "generated_".toList ++ tag ++ ['_']

def descends (skipHidden : Bool) (name : Text) : Bool :=
  !skippedDirs.contains name && !(skipHidden && name.head? == some '.')

def isSourceFile (name : Text) : Bool :=
  Text.endsWith sourceExtension name && !Text.endsWith testSuffix name

/-- The text of a file, or none if a tag is given that does not select it.  Only a selected file has to
be UTF-8. -/
def readTagged (fs : FileSystem) (path : Path) (tag : Option Text) : Except DiscoverError (Option Text) :=
  match fs.bytes path with
  | .error cause => .error (.unreadableFile path cause)
  | .ok bytes =>
    if tag.any fun t => !Constraint.selects (Utf8.decodeLossy bytes) t then .ok none
    else match Utf8.decode bytes with
      | .ok text => .ok (some text)
      | .error offset =>
        let (line, column) := Utf8.position (bytes.take offset)
        .error (.invalidText path line column)

/-- The directories to walk into from a directory with these entries. -/
def subdirectories (options : WalkOptions) (dir : Path) (entries : List DirEntry) : List Path :=
  (entries.filter fun e => e.kind == .dir && descends options.skipHidden e.name).map fun e =>
    Path.join dir e.name

/-- The entry can be a tagged file, by its name. -/
def mayBeTagged (options : WalkOptions) (e : DirEntry) : Bool :=
  e.kind == .file && isSourceFile e.name && !Text.startsWith (generatedStart options.buildTag) e.name

/-- The tagged files among the entries of a directory. -/
def taggedFiles (fs : FileSystem) (options : WalkOptions) (dir : Path) :
    List DirEntry → Except DiscoverError (List TaggedFile)
  | [] => .ok []
  | e :: rest =>
    if mayBeTagged options e then do
      let path := Path.join dir e.name
      let content ← readTagged fs path (some options.buildTag)
      let more ← taggedFiles fs options dir rest
      .ok ((content.toList.map fun text => ⟨path, text⟩) ++ more)
    else taggedFiles fs options dir rest

/-- The walk between two directories. -/
structure State where
  /-- Directories to visit, with their depths. -/
  queue : List (Path × Nat)
  found : List TaggedDir

def start (dir : Path) : State := ⟨[(dir, 0)], []⟩

/-- A walk for one package ends before the first directory below the level where one was found. -/
def isOver (options : WalkOptions) (s : State) (depth : Nat) : Bool :=
  !options.multiPackage && s.found.head?.any fun first => depth > first.depth

/-- Visits a directory. -/
def visit (fs : FileSystem) (options : WalkOptions) (dir : Path) :
    Except DiscoverError (List TaggedFile × List Path) :=
  match fs.entries dir with
  | .error cause => .error (.unreadableDirectory dir cause)
  | .ok entries => do
    let entries := sortEntries entries
    let files ← taggedFiles fs options dir entries
    .ok (files, subdirectories options dir entries)

/-- Visits at most `fuel` directories.  The result is none if some are left. -/
def run (fs : FileSystem) (options : WalkOptions) :
    (fuel : Nat) → State → Option (Except DiscoverError (List TaggedDir))
  | _, ⟨[], found⟩ => some (.ok found)
  | 0, _ => none
  | fuel + 1, ⟨(dir, depth) :: queue, found⟩ =>
    if isOver options ⟨queue, found⟩ depth then some (.ok found)
    else match visit fs options dir with
      | .error e => some (.error e)
      | .ok (files, dirs) =>
        let here : List TaggedDir := if files.isEmpty then [] else [⟨dir, depth, files⟩]
        run fs options fuel ⟨queue ++ dirs.map fun d => (d, depth + 1), found ++ here⟩

/-- One package was asked for and a level has several. -/
def conflict (options : WalkOptions) (found : List TaggedDir) : Option DiscoverError :=
  match found with
  | first :: _ :: _ =>
    if options.multiPackage then none
    else some (.depthConflict first.depth (found.map TaggedDir.path))
  | _ => none

end Walk

/-- The tagged directories below a start directory, level by level; none if more than `fuel`
directories would have to be visited. -/
def walk (fuel : Nat) (fs : FileSystem) (dir : Path) (options : WalkOptions) :
    Option (Except DiscoverError (List TaggedDir)) :=
  (Walk.run fs options fuel (Walk.start dir)).map fun
    | .error e => .error e
    | .ok found => match Walk.conflict options found with
      | some e => .error e
      | none => .ok found

end GoCommands
