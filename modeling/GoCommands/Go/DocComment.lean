import GoCommands.Go.Source

/-!
# Documentation comments

The comments on the lines directly above a declaration document it.  A comment on the line of the
declaration itself does not, nor does one that trails code on its line.
-/

namespace GoCommands.Go

namespace DocComment

/-- Line breaks among the trivia up to the nearest comment, the trivia being in reverse order. -/
def breaksBefore : List Trivia → Nat
  | .blank t :: rest => t.count '\n' + breaksBefore rest
  | _ => 0

/-- There is no comment between the trivia and the token before them. -/
def noComment (before : List Trivia) : Bool :=
  before.all fun
    | .blank _ => true
    | .comment _ => false

/-- A comment with these trivia before it, in reverse order, stands on a line behind code. -/
def trailsCode (follows : Bool) (before : List Trivia) : Bool :=
  follows && noComment before && breaksBefore before == 0

/-- The attached comments from the last to the first.  `breaks` counts the line breaks between the
trivia, which are in reverse order, and what stands below. -/
def attachedFrom (follows : Bool) (breaks : Nat) : List Trivia → List Text
  | [] => []
  | .blank t :: rest => attachedFrom follows (breaks + t.count '\n') rest
  | .comment c :: rest =>
    if breaks != 1 || trailsCode follows rest then [] else c :: attachedFrom follows 0 rest

def attached (item : Item) : List Text := (attachedFrom item.follows 0 item.before.reverse).reverse

def isWordChar (c : Char) : Bool := c.isLower || c.isDigit

/-- Comments such as `//go:build` give instructions to tools: small letters and digits, a colon, and a
small letter or digit. -/
def isDirective (line : Text) : Bool :=
  match Text.splitOnce? ':' line with
  | some (word, rest) => !word.isEmpty && word.all isWordChar && rest.head?.any isWordChar
  | none => false

/-- The lines of a comment without its marks. -/
def linesOf : Text → List Text
  | '/' :: '/' :: line =>
    if isDirective line then []
    else [Text.trimEnd (match line with
      | ' ' :: rest => rest
      | _ => line)]
  | comment =>
    let body := ((Text.after? ['/', '*'] comment).bind (Text.before? ['*', '/'])).getD comment
    (Text.lines body).map Text.trim

/-- The documentation that comments give; none if it is empty. -/
def ofComments (comments : List Text) : Option Text :=
  let doc := Text.trim (Text.joinWith ['\n'] (comments.flatMap linesOf))
  if doc.isEmpty then none else some doc

end DocComment

def Item.doc (item : Item) : Option Text := DocComment.ofComments (DocComment.attached item)

namespace SourceFile

/-- The item of the first package clause. -/
def packageItem (f : SourceFile) : Option Item :=
  f.items.find? fun item => match item.declaration with
    | .package _ => true
    | _ => false

def packageName (f : SourceFile) : Option Text :=
  f.declarations.findSome? fun
    | .package name => some name
    | _ => none

def packageDoc (f : SourceFile) : Option Text := f.packageItem.bind Item.doc

end SourceFile

end GoCommands.Go
