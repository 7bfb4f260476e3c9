import GoCommands.CommandLine.Run
import GoCommands.FileSystem.Archive

/-!
# The command line

The file tree that a command works on comes as an archive on standard input.  What the command prints
goes to standard output, followed by an archive of the files that it wrote, and its errors go to
standard error.
-/

namespace GoCommands

def usage : String :=
  "Usage: gantry [OPTIONS] discover|ls [ROOT] [-m] [--include-hidden] [--json]\n" ++
  "       gantry [OPTIONS] generate|gen [DIR] [--only-tagged] [--no-tag]\n" ++
  "Options: -c|--config FILE, -t|--tag TAG, --log-level LEVEL, -v|--verbose, --trace\n"

/-- The rest of an input. -/
partial def readAll (input : IO.FS.Stream) (front : String) : IO String := do
  let line ← input.getLine
  if line.isEmpty then return front
  readAll input (front ++ line)

/-- Runs a command line on a file tree and reports what happened. -/
def report (config : Option String) (args : List String) (tree : MemoryFiles) : IO UInt32 := do
  let environment : Environment := ⟨['.'], config.map String.toList⟩
  match CommandLine.run (tree.dirs.length + 1) environment tree (args.map String.toList) with
  | (after, .ok out) =>
    (← IO.getStdout).putStr (String.ofList (out ++ Archive.render (Archive.changes tree after)))
    return 0
  | (_, .error e) =>
    match e with
    | .refused .displayHelp => (← IO.getStdout).putStr usage
    | .refused _ => (← IO.getStderr).putStr usage
    | _ => (← IO.getStderr).putStr (String.ofList e.report)
    return UInt32.ofNat e.code

end GoCommands

def main (args : List String) : IO UInt32 := do
  let input ← GoCommands.readAll (← IO.getStdin) ""
  GoCommands.report (← IO.getEnv "GANTRY_CONFIG") args (GoCommands.Archive.parse input.toList).toFiles
