import GoCommands.FileSystem.Memory

/-!
# Archives

An archive holds text files in one text.  Each file begins behind a line `-- path --` and ends before
the next such line.
-/

namespace GoCommands

abbrev Archive := List (Path × Text)

namespace Archive

/-- The path in a line that begins a file. -/
def headerPath? (line : Text) : Option Path := do
  let path ← Text.before? " --".toList (← Text.after? "-- ".toList line)
  let path := Text.trim path
  if path.isEmpty then none else some path

/-- Reads lines; what stands before the first file is left out. -/
def ofLines : List Text → Archive
  | [] => []
  | line :: rest =>
    match headerPath? line with
    | some path => (path, contents rest) :: ofLines rest
    | none => ofLines rest
where
  contents : List Text → Text
    | [] => []
    | line :: rest => if (headerPath? line).isSome then [] else line ++ '\n' :: contents rest

def parse (t : Text) : Archive := ofLines (Text.lines t)

def render (a : Archive) : Text :=
  a.flatMap fun (path, t) => "-- ".toList ++ path ++ " --\n".toList ++ t

def toFiles (a : Archive) : MemoryFiles :=
  a.foldl (fun s (path, t) => s.addFile path (Utf8.encode t)) MemoryFiles.empty

/-- The files that are new or different in a later state. -/
def changes (before after : MemoryFiles) : Archive :=
  (after.files.filter fun f => !before.files.contains f).map fun (path, f) =>
    (path, Utf8.decodeLossy f.contents)

end Archive

end GoCommands
