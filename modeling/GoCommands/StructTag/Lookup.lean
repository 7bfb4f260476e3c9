import GoCommands.Text.Basic

/-!
# Struct tags

A struct tag is a list of pairs `key:"value"` separated by spaces.
-/

namespace GoCommands.StructTag

/-- Decodes the one-character escapes of string literals.  Any other escape is kept as it is. -/
def unescape : Text → Text
  | [] => []
  | '\\' :: c :: rest =>
    match c with
    | 'n' => '\n' :: unescape rest
    | 't' => '\t' :: unescape rest
    | 'r' => '\r' :: unescape rest
    | 'a' => '\x07' :: unescape rest
    | 'b' => '\x08' :: unescape rest
    | 'f' => '\x0c' :: unescape rest
    | 'v' => '\x0b' :: unescape rest
    | '\\' => '\\' :: unescape rest
    | '"' => '"' :: unescape rest
    | '\'' => '\'' :: unescape rest
    | other => '\\' :: other :: unescape rest
  | c :: rest => c :: unescape rest

/-- Characters of a key: no space, control character, colon or quote. -/
def isKeyChar (c : Char) : Bool := ' ' < c && c != ':' && c != '"' && c != '\x7f'

/-- A quoted value up to its closing quote, still escaped, and the rest behind the quote. -/
def quoted? : Text → Option (Text × Text)
  | [] => none
  | '"' :: rest => some ([], rest)
  | '\\' :: c :: rest => (quoted? rest).map fun (value, behind) => ('\\' :: c :: value, behind)
  | c :: rest => (quoted? rest).map fun (value, behind) => (c :: value, behind)

/-- The first pair of a tag, with its value still escaped, and the rest behind it. -/
def pair? (tag : Text) : Option ((Text × Text) × Text) :=
  let tag := tag.dropWhile (· == ' ')
  let key := tag.takeWhile isKeyChar
  if key.isEmpty then none
  else match tag.dropWhile isKeyChar with
    | ':' :: '"' :: rest => (quoted? rest).map fun (value, behind) => ((key, value), behind)
    | _ => none

/-- The pairs of a tag up to the first place that is malformed. -/
def pairsWithin : (fuel : Nat) → Text → List (Text × Text)
  | 0, _ => []
  | fuel + 1, tag =>
    match pair? tag with
    | none => []
    | some (pair, rest) => pair :: pairsWithin fuel rest

def pairs (tag : Text) : List (Text × Text) := pairsWithin tag.length tag

/-- The value of the first pair with the key. -/
def lookup (tag key : Text) : Option Text :=
  ((pairs tag).find? fun pair => pair.1 == key).map fun pair => unescape pair.2

end GoCommands.StructTag
