import GoCommands.Constraint.Parser

/-!
# The constraint in the header of a file

A file states its build constraint on a line `//go:build` in the header: the blank lines and comments
before the first line of code.
-/

namespace GoCommands.Constraint

/-- What a line of the header that does not start inside a block comment is. -/
inductive HeaderLine where
  | blank
  /-- A line comment, or block comments that end on the line. -/
  | comment
  /-- A block comment that goes on after the line. -/
  | opening
  | directive (expression : Text)
  | code

/-- The expression of a directive line: `//go:build` is followed by white space or by nothing. -/
def directive? (line : Text) : Option Text :=
  match Text.after? "//go:build".toList line with
  | some rest => if rest.head?.all Text.isWhite then some (Text.trim rest) else none
  | none => none

/-- Code after a closed block comment ends the header; a second comment on the line is code here. -/
def headerLine (line : Text) : HeaderLine :=
  let line := Text.trim line
  if line.isEmpty then .blank
  else match directive? line with
    | some expression => .directive expression
    | none =>
      match line with
      | '/' :: '/' :: _ => .comment
      | '/' :: '*' :: rest =>
        match Text.afterCommentEnd? rest with
        | none => .opening
        | some behind => if (Text.trim behind).isEmpty then .comment else .code
      | _ => .code

/-- Looks for the directive line, outside (`false`) or inside (`true`) a block comment. -/
def directiveIn : (inBlock : Bool) → List Text → Option Text
  | _, [] => none
  | true, line :: rest =>
    match Text.afterCommentEnd? (Text.trim line) with
    | none => directiveIn true rest
    | some behind => if (Text.trim behind).isEmpty then directiveIn false rest else none
  | false, line :: rest =>
    match headerLine line with
    | .blank => directiveIn false rest
    | .comment => directiveIn false rest
    | .opening => directiveIn true rest
    | .directive expression => some expression
    | .code => none

/-- The expression of the first directive in the header of a file. -/
def find? (source : Text) : Option Text := directiveIn false (Text.lines source)

/-- A file is selected by a tag when its constraint holds with only that tag set.  A text that is no
constraint selects the tag of the same spelling. -/
def selects (source tag : Text) : Bool :=
  match find? source with
  | none => false
  | some expression =>
    match parse expression with
    | .ok constraint => constraint.eval (· == tag)
    | .error _ => Text.trim expression == tag

end GoCommands.Constraint
