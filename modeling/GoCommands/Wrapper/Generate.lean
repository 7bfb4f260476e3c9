import GoCommands.Wrapper.Layout
import GoCommands.Wrapper.Render
import GoCommands.Discovery

/-!
# Generating wrappers

One file per package and tag holds the wrappers of all functions of a directory.  Nothing is written
unless everything before the write succeeds.
-/

namespace GoCommands

inductive GenerateError where
  | scan (cause : DiscoverError)
  | noSourceFiles (dir : Path)
  | filterWithoutTag
  | noPackageName (dir : Path)
  | wrapperExists (function typeName : Text)
  /-- The generated text is no source file. -/
  | format (cause : DiscoverError)
  | write (path : Path) (cause : IoError)
deriving DecidableEq, Repr

namespace GenerateError

def message : GenerateError → Text
  | scan cause => cause.message
  | noSourceFiles dir => "No Go source files in '".toList ++ dir ++ ['\'']
  | filterWithoutTag => "Tag filtering requires a build tag on the generated file".toList
  | noPackageName dir => "No package name found in '".toList ++ dir ++ ['\'']
  | wrapperExists function typeName =>
    "Wrapper already exists for ".toList ++ function ++ ": type ".toList ++ typeName ++
      " is declared".toList
  | format cause => "Failed to format generated code: ".toList ++ cause.message
  | write path cause => "Failed to write '".toList ++ path ++ "': ".toList ++ cause.message

/-- The failure of the file system behind an error. -/
def ioCause : GenerateError → Option IoError
  | scan cause => cause.ioCause
  | write _ cause => some cause
  | _ => none

end GenerateError

structure GenerateOptions where
  dir : Path
  /-- Tag of the generated file, if it has one. -/
  buildTag : Option Text
  /-- Only scan files that the tag selects. -/
  onlyTagged : Bool
deriving DecidableEq, Repr

namespace Generate

def fileMode : Nat := 0o644

/-- The tag in the name of the generated file. -/
def effectiveTag (options : GenerateOptions) : Text := options.buildTag.getD defaultBuildTag

def outputPath (options : GenerateOptions) (package : Text) : Path :=
  Path.join options.dir
    (Walk.generatedStart (effectiveTag options) ++ package ++ Walk.sourceExtension)

/-- The first function that has a wrapper already. -/
def existingWrapper (scan : DirectoryScan) (functions : List WrappedFunction) : Option GenerateError :=
  (functions.find? fun f => scan.typeNames.contains (Wrapper.typeName f.name)).map fun f =>
    .wrapperExists f.name (Wrapper.typeName f.name)

/-- The file to write for a scanned directory; none if there is nothing to wrap. -/
def output (options : GenerateOptions) (scan : DirectoryScan) : Except GenerateError (Option (Path × Text)) :=
  if scan.sourceFiles.isEmpty then .error (.noSourceFiles options.dir)
  else match scan.packageName with
    | none => .error (.noPackageName options.dir)
    | some package =>
      let functions := scan.eligible
      if functions.isEmpty then .ok none
      else match existingWrapper scan functions with
        | some e => .error e
        | none =>
          let path := outputPath options package
          match Layout.format? (Wrapper.unit package options.buildTag functions) with
          | none => .error (.format (.badSource path))
          | some text => .ok (some (path, text))

/-- What a run on a file system would write, and where. -/
def plan (fs : FileSystem) (options : GenerateOptions) : Except GenerateError (Option (Path × Text)) :=
  if options.onlyTagged && options.buildTag.isNone then .error .filterWithoutTag
  else
    let filter := if options.onlyTagged then some (effectiveTag options) else none
    match DirectoryScan.ofDirectory fs options.dir filter with
    | .error e => .error (.scan e)
    | .ok scan => output options scan

end Generate

/-- Writes the wrappers for a directory.  Gives the state afterwards and the path written, if any. -/
def generate [FileStore σ] (s : σ) (options : GenerateOptions) : σ × Except GenerateError (Option Path) :=
  match Generate.plan (FileStore.view s) options with
  | .error e => (s, .error e)
  | .ok none => (s, .ok none)
  | .ok (some (path, text)) =>
    match FileStore.writeFile s path (Utf8.encode text) Generate.fileMode with
    | (s, .error cause) => (s, .error (.write path cause))
    | (s, .ok ()) => (s, .ok (some path))

end GoCommands
