import GoCommands.Go.Token

/-!
# Reading lexemes

A token is as long as possible.  White space is that of ASCII; a text with any other character outside
literals, comments and identifiers has no lexemes.  A block comment that is never closed is no comment,
its slash is a symbol.
-/

namespace GoCommands.Go

namespace Lexer

def isBlank (c : Char) : Bool := (9 ≤ c.toNat && c.toNat ≤ 13) || c == ' '

/-- Splits behind the first `*/`. -/
def blockComment? : Text → Option (Text × Text)
  | [] => none
  | '*' :: '/' :: rest => some (['*', '/'], rest)
  | c :: rest => (blockComment? rest).map fun (body, behind) => (c :: body, behind)

def comment? : Text → Option (Text × Text)
  | '/' :: '/' :: rest =>
    some ('/' :: '/' :: rest.takeWhile (· != '\n'), rest.dropWhile (· != '\n'))
  | '/' :: '*' :: rest => (blockComment? rest).map fun (body, behind) => ('/' :: '*' :: body, behind)
  | _ => none

def trivia : (fuel : Nat) → Text → List Trivia × Text
  | 0, t => ([], t)
  | fuel + 1, t =>
    match t with
    | [] => ([], [])
    | c :: cs =>
      if isBlank c then
        let (more, rest) := trivia fuel (cs.dropWhile isBlank)
        (.blank (c :: cs.takeWhile isBlank) :: more, rest)
      else match comment? t with
        | some (comment, behind) =>
          let (more, rest) := trivia fuel behind
          (.comment comment :: more, rest)
        | none => ([], t)

def isDecimal (c : Char) : Bool := c.isDigit

def isOctal (c : Char) : Bool := '0' ≤ c && c ≤ '7'

def isBinary (c : Char) : Bool := c == '0' || c == '1'

def isHex (c : Char) : Bool := c.isDigit || ('a' ≤ c && c ≤ 'f') || ('A' ≤ c && c ≤ 'F')

/-- How many characters further digits take; a single underscore may stand before each digit. -/
def moreDigits (isDigit : Char → Bool) : Text → Nat
  | '_' :: d :: rest => if isDigit d then 2 + moreDigits isDigit rest else 0
  | d :: rest => if isDigit d then 1 + moreDigits isDigit rest else 0
  | [] => 0

/-- How many characters a digit sequence at the start takes, 0 when there is none. -/
def digits (isDigit : Char → Bool) : Text → Nat
  | d :: rest => if isDigit d then 1 + moreDigits isDigit rest else 0
  | [] => 0

/-- Digits that may have an underscore in front. -/
def digitsAfterMark (isDigit : Char → Bool) : Text → Nat
  | '_' :: rest => match digits isDigit rest with
    | 0 => 0
    | n => n + 1
  | t => digits isDigit t

/-- An exponent: its letter, a sign and decimal digits. -/
def exponent (isLetter : Char → Bool) : Text → Nat
  | c :: rest =>
    if isLetter c then
      let sign := match rest with
        | '+' :: _ | '-' :: _ => 1
        | _ => 0
      match digits isDecimal (rest.drop sign) with
      | 0 => 0
      | n => 1 + sign + n
    else 0
  | [] => 0

def isDecimalExponent (c : Char) : Bool := c == 'e' || c == 'E'

def isHexExponent (c : Char) : Bool := c == 'p' || c == 'P'

/-- Length of a number in base 2, 8 or 16 with its mark. -/
def markedInteger : Text → Nat
  | '0' :: c :: rest =>
    let body :=
      if c == 'x' || c == 'X' then digitsAfterMark isHex rest
      else if c == 'o' || c == 'O' then digitsAfterMark isOctal rest
      else if c == 'b' || c == 'B' then digitsAfterMark isBinary rest
      else 0
    if body == 0 then 0 else 2 + body
  | _ => 0

/-- Length of an octal number that only starts with a zero. -/
def zeroInteger : Text → Nat
  | '0' :: rest => 1 + digitsAfterMark isOctal rest
  | _ => 0

def decimalInteger (t : Text) : Nat :=
  match t with
  | '0' :: _ => 1
  | _ => digits isDecimal t

def integer (t : Text) : Nat := max (decimalInteger t) (max (zeroInteger t) (markedInteger t))

/-- Length of a decimal number with a point or an exponent. -/
def decimalFloat (t : Text) : Nat :=
  match digits isDecimal t with
  | 0 => match t with
    | '.' :: rest => match digits isDecimal rest with
      | 0 => 0
      | n => 1 + n + exponent isDecimalExponent (rest.drop n)
    | _ => 0
  | n => match t.drop n with
    | '.' :: rest =>
      let m := digits isDecimal rest
      n + 1 + m + exponent isDecimalExponent (rest.drop m)
    | rest => match exponent isDecimalExponent rest with
      | 0 => 0
      | e => n + e

/-- Length of a hexadecimal number with an exponent. -/
def hexFloat : Text → Nat
  | '0' :: c :: rest =>
    if c == 'x' || c == 'X' then
      let whole := digitsAfterMark isHex rest
      let mantissa := match rest.drop whole with
        | '.' :: fraction => match whole, digits isHex fraction with
          | 0, 0 => 0
          | _, n => whole + 1 + n
        | _ => whole
      if mantissa == 0 then 0
      else match exponent isHexExponent (rest.drop mantissa) with
        | 0 => 0
        | e => 2 + mantissa + e
    else 0
  | _ => 0

/-- Length of the number at the start of a text; an `i` behind it makes it imaginary. -/
def numberLength (t : Text) : Nat :=
  let imaginary (n : Nat) := if n != 0 && (t.drop n).head? == some 'i' then n + 1 else n
  let candidates := [integer t, decimalFloat t, hexFloat t, digits isDecimal t].map imaginary
  let real := max (integer t) (max (decimalFloat t) (hexFloat t))
  (candidates.filter fun n => (t.drop (n - 1)).head? == some 'i').foldl max real

/-- Length of an escape in a string literal behind its backslash, 0 when there is none. -/
def escapeLength : Text → Nat
  | [] => 0
  | 'x' :: rest => match (rest.takeWhile isHex).length with
    | 0 => 0
    | 1 => 0
    | n => n + 1
  | 'u' :: rest => if (rest.take 4).length == 4 && (rest.take 4).all isHex then 5 else 0
  | 'U' :: rest => if (rest.take 8).length == 8 && (rest.take 8).all isHex then 9 else 0
  | _ :: _ => 1

/-- The rest of a string literal behind its opening quote, and what follows it.  Behind a line break
a literal goes on only after comments. -/
def quoted? : (fuel : Nat) → Text → Option (Text × Text)
  | 0, _ => none
  | fuel + 1, t =>
    match t with
    | [] => none
    | '"' :: rest => some (['"'], rest)
    | '\\' :: rest =>
      match escapeLength rest with
      | 0 => none
      | n => (quoted? fuel (rest.drop n)).map fun (body, behind) => ('\\' :: rest.take n ++ body, behind)
    | '\n' :: _ =>
      match comment? (t.dropWhile isBlank) with
      | some (comment, behind) =>
        (quoted? fuel behind).map fun (body, after) => (t.takeWhile isBlank ++ comment ++ body, after)
      | none => none
    | c :: rest => (quoted? fuel rest).map fun (body, behind) => (c :: body, behind)

/-- A literal in double quotes at the start of a text. -/
def string? : Text → Option (Text × Text)
  | '"' :: rest => (quoted? (rest.length + 1) rest).map fun (body, behind) => ('"' :: body, behind)
  | _ => none

/-- A literal in backquotes at the start of a text. -/
def rawString? : Text → Option (Text × Text)
  | '\x60' :: rest =>
    match rest.dropWhile (· != '\x60') with
    | _ :: behind => some ('\x60' :: rest.takeWhile (· != '\x60') ++ ['\x60'], behind)
    | [] => none
  | _ => none

def isRuneEscape (c : Char) : Bool := "abfnrtv\\'\"".toList.contains c

/-- Length of a rune literal: one character or one escape between single quotes. -/
def runeLength : Text → Nat
  | '\'' :: '\\' :: rest =>
    let body := match rest with
      | 'x' :: h => if (h.take 2).length == 2 && (h.take 2).all isHex then 3 else 0
      | 'u' :: h => if (h.take 4).length == 4 && (h.take 4).all isHex then 5 else 0
      | 'U' :: h => if (h.take 8).length == 8 && (h.take 8).all isHex then 9 else 0
      | c :: h =>
        if isRuneEscape c then 1
        else if isOctal c && (h.take 2).length == 2 && (h.take 2).all isOctal then 3
        else 0
      | [] => 0
    if body != 0 && (rest.drop body).head? == some '\'' then body + 3 else 0
  | '\'' :: c :: '\'' :: _ => if c == '\'' then 0 else 3
  | _ => 0

/-- The token at the start of a text, and the rest. -/
def token? (t : Text) : Option (Token × Text) :=
  match t with
  | [] => none
  | c :: cs =>
    if Text.isIdentifierStart c then
      let word := c :: cs.takeWhile Text.isIdentifierPart
      let rest := cs.dropWhile Text.isIdentifierPart
      match Keyword.ofText? word with
      | some k => some (.keyword k, rest)
      | none => some (.word word, rest)
    else if c == '"' then (string? t).map fun (literal, rest) => (.string literal, rest)
    else if c == '\x60' then (rawString? t).map fun (literal, rest) => (.rawString literal, rest)
    else if c == '\'' then
      match runeLength t with
      | 0 => none
      | n => some (.rune (t.take n), t.drop n)
    else match numberLength t with
      | 0 => (Symbol.read? t).map fun (s, rest) => (.symbol s, rest)
      | n => some (.number (t.take n), t.drop n)

/-- Reads at most `fuel` lexemes. -/
def lexemesWithin : (fuel : Nat) → Text → Option (List Lexeme)
  | 0, _ => none
  | fuel + 1, t =>
    match trivia (fuel + 1) t with
    | (before, []) => some [⟨before, .eof⟩]
    | (before, rest) => do
      let (token, behind) ← token? rest
      let more ← lexemesWithin fuel behind
      some (⟨before, token⟩ :: more)

end Lexer

/-- One mark for the byte order at the start is not part of the source. -/
def withoutMark : Text → Text
  | c :: cs => if c.toNat == 0xFEFF then cs else c :: cs
  | [] => []

/-- The lexemes of a source text.  The last one is the end of the file. -/
def lexemes (source : Text) : Option (List Lexeme) :=
  let source := withoutMark source
  Lexer.lexemesWithin (source.length + 1) source

end GoCommands.Go
