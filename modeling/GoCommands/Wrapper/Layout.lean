import GoCommands.Go.Parser

/-!
# Layout of generated source

No white space at the end of a line, no blank line at the start or the end, and no two blank lines in
sequence.
-/

namespace GoCommands.Layout

/-- Writes the lines that are not blank.  `started` says that one was written before, and `gap` that
blank lines came behind it. -/
def arrange (started gap : Bool) : List Text → Text
  | [] => []
  | l :: rest =>
    let l := Text.trimEnd l
    if l.isEmpty then arrange started started rest
    else (if gap then ['\n'] else []) ++ l ++ '\n' :: arrange true false rest

/-- The layout of any text. -/
def normalize (t : Text) : Text := arrange false false (Text.lines t)

/-- The layout of a source file; none if the text is no source file. -/
def format? (source : Text) : Option Text :=
  if (Go.SourceFile.parse source).isSome then some (normalize source) else none

end GoCommands.Layout
