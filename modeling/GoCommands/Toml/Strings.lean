import GoCommands.Toml.Scalar

/-!
# Strings of a TOML document

There are four kinds: with and without escapes, on one line and on several.  A reader gets the text
behind the opening quotes and gives the value and the rest.
-/

namespace GoCommands.Toml.Strings

/-- Characters that may stand anywhere on a line. -/
def isPlain (c : Char) : Bool := c == '\t' || (0x20 ≤ c.toNat && c.toNat != 0x7F)

def isBlank (c : Char) : Bool := c == ' ' || c == '\t'

/-- The rest behind a line break. -/
def afterBreak? : Text → Option Text
  | '\n' :: rest => some rest
  | '\r' :: '\n' :: rest => some rest
  | _ => none

def ofCode? (digits : Text) : Option Char :=
  if digits.all Scalar.isHex then
    let code := Scalar.valueOf 16 digits
    if Nat.isValidChar code then some (Char.ofNat code) else none
  else none

/-- What a letter behind a backslash stands for. -/
def escaped? : Char → Option Char
  | 'b' => some (Char.ofNat 8)
  | 't' => some '\t'
  | 'n' => some '\n'
  | 'f' => some (Char.ofNat 12)
  | 'r' => some '\r'
  | '"' => some '"'
  | '\\' => some '\\'
  | _ => none

/-- Reads an escape behind its backslash. -/
def escape? : Text → Option (Char × Text)
  | 'u' :: rest =>
    if rest.length < 4 then none else (ofCode? (rest.take 4)).map fun c => (c, rest.drop 4)
  | 'U' :: rest =>
    if rest.length < 8 then none else (ofCode? (rest.take 8)).map fun c => (c, rest.drop 8)
  | c :: rest => (escaped? c).map fun c => (c, rest)
  | [] => none

/-- Puts a character before the value that is read from the rest. -/
def prepend (c : Char) (r : Option (Text × Text)) : Option (Text × Text) :=
  r.map fun (value, rest) => (c :: value, rest)

/-- The string `"…"`. -/
def basic : (fuel : Nat) → Text → Option (Text × Text)
  | 0, _ => none
  | _, [] => none
  | fuel + 1, c :: rest =>
    if c == '"' then some ([], rest)
    else if c == '\\' then (escape? rest).bind fun (c, rest) => prepend c (basic fuel rest)
    else if isPlain c then prepend c (basic fuel rest)
    else none

def literal : Text → Option (Text × Text)
  | [] => none
  | c :: rest =>
    if c == '\'' then some ([], rest)
    else if isPlain c then prepend c (literal rest)
    else none

/-- The end of a string on several lines: three quotes, and up to two more in front that belong to the
value. -/
def closing? (quote : Char) (t : Text) : Option (Text × Text) :=
  let count := (t.takeWhile (· == quote)).length
  if count < 3 then none
  else
    let kept := min (count - 3) 2
    some (List.replicate kept quote, t.drop (kept + 3))

/-- The rest behind a backslash at the end of a line, which takes all blanks and line breaks with it. -/
def afterJoint? (t : Text) : Option Text :=
  (afterBreak? (t.dropWhile isBlank)).map skip
where
  skip : Text → Text
    | '\r' :: '\n' :: rest => skip rest
    | c :: rest => if isBlank c || c == '\n' then skip rest else c :: rest
    | [] => []

def multiBasic : (fuel : Nat) → Text → Option (Text × Text)
  | 0, _ => none
  | fuel + 1, t =>
    match closing? '"' t with
    | some r => some r
    | none =>
      match afterBreak? t with
      | some rest => prepend '\n' (multiBasic fuel rest)
      | none =>
        match t with
        | [] => none
        | c :: rest =>
          if c == '\\' then
            match afterJoint? rest with
            | some rest => multiBasic fuel rest
            | none => (escape? rest).bind fun (c, rest) => prepend c (multiBasic fuel rest)
          else if isPlain c then prepend c (multiBasic fuel rest)
          else none

def multiLiteral : (fuel : Nat) → Text → Option (Text × Text)
  | 0, _ => none
  | fuel + 1, t =>
    match closing? '\'' t with
    | some r => some r
    | none =>
      match afterBreak? t with
      | some rest => prepend '\n' (multiLiteral fuel rest)
      | none =>
        match t with
        | [] => none
        | c :: rest => if isPlain c then prepend c (multiLiteral fuel rest) else none

def line? : Text → Option (Text × Text)
  | '"' :: rest => basic (rest.length + 1) rest
  | '\'' :: rest => literal rest
  | _ => none

/-- Reads a string of any kind.  A line break behind three opening quotes is no part of the value. -/
def read? (t : Text) : Option (Text × Text) :=
  match t with
  | '"' :: '"' :: '"' :: rest =>
    let rest := (afterBreak? rest).getD rest
    multiBasic (rest.length + 1) rest
  | '\'' :: '\'' :: '\'' :: rest =>
    let rest := (afterBreak? rest).getD rest
    multiLiteral (rest.length + 1) rest
  | _ => line? t

end GoCommands.Toml.Strings
