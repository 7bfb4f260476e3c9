import GoCommands.Go.Source
import GoCommands.StructTag.Annotation

/-!
# Values of string literals
-/

namespace GoCommands.Go

/-- The value of a string literal.  A raw literal has no escapes, and carriage returns in it do not
count. -/
def stringValue : Token → Option Text
  | .string literal =>
    ((Text.after? ['"'] literal).bind (Text.before? ['"'])).map StructTag.unescape
  | .rawString literal =>
    ((Text.after? ['\x60'] literal).bind (Text.before? ['\x60'])).map (List.filter (· != '\r'))
  | _ => none

end GoCommands.Go
