import GoCommands.FileSystem.Basic
import GoCommands.Go.Invocation

/-!
# What can go wrong in a discovery
-/

namespace GoCommands

inductive DiscoverError where
  | unreadableDirectory (path : Path) (cause : IoError)
  | unreadableFile (path : Path) (cause : IoError)
  /-- A selected file is not UTF-8; line and column of the first byte that is not. -/
  | invalidText (path : Path) (line column : Nat)
  | badSource (path : Path)
  | missingPackage (path : Path)
  | multiplePackages (dir : Path) (first second : Text)
  | entryPoint (files : List Path)
  | invalidSignature (function : Text) (file : Path) (problem : Go.SignatureProblem)
  | duplicateCommand (name first second : Text)
  | depthConflict (depth : Nat) (dirs : List Path)
deriving DecidableEq, Repr

namespace DiscoverError

def number (n : Nat) : Text := (toString n).toList

def parseMessage (path : Path) (line column : Nat) (what : String) : Text :=
  "Parse error in '".toList ++ path ++ "' at ".toList ++ number line ++ [':'] ++ number column ++
    [':', ' '] ++ what.toList

def joinPaths (paths : List Path) : Text := Text.joinWith [',', ' '] paths

def message : DiscoverError → Text
  | unreadableDirectory path cause =>
    "Failed to read directory '".toList ++ path ++ "': ".toList ++ cause.message
  | unreadableFile path cause => "Failed to read file '".toList ++ path ++ "': ".toList ++ cause.message
  | invalidText path line column => parseMessage path line column "invalid UTF-8 in source file"
  | badSource path => "syntax error in ".toList ++ path
  | missingPackage path => parseMessage path 1 1 "missing package clause"
  | multiplePackages dir first second =>
    "Multiple package names in '".toList ++ dir ++ "': ".toList ++ first ++ " and ".toList ++ second
  | entryPoint files => "Tagged files must not declare main(): ".toList ++ joinPaths files
  | invalidSignature function file problem =>
    "Function ".toList ++ function ++ " in '".toList ++ file ++ "' ".toList ++ problem.message
  | duplicateCommand name first second =>
    "Duplicate command name '".toList ++ name ++ "': ".toList ++ first ++ " and ".toList ++ second
  | depthConflict depth dirs =>
    "Multiple tagged directories at depth ".toList ++ number depth ++ ": ".toList ++ joinPaths dirs ++
      "; enable multi-package mode or narrow the start directory".toList

/-- The failure of the file system behind an error. -/
def ioCause : DiscoverError → Option IoError
  | unreadableDirectory _ cause => some cause
  | unreadableFile _ cause => some cause
  | _ => none

end DiscoverError

end GoCommands
