import GoCommands.Text.UnicodeRanges

/-!
# Text

Text is a list of characters.  This file holds the character classes by their Unicode properties, the
division into lines, and trimming.  The classes test the characters up to U+007F directly, so they can
be computed without the tables on plain source code.
-/

namespace GoCommands

/-- Source code, names and paths. -/
abbrev Text := List Char

namespace Text

def isWhite (c : Char) : Bool :=
  if c.toNat < 128 then (9 ≤ c.toNat && c.toNat ≤ 13) || c.toNat == 32
  else onRun whiteSpaceRuns c.toNat

def isCapital (c : Char) : Bool :=
  if c.toNat < 128 then c.isUpper else onRun uppercaseRuns c.toNat

def isSmall (c : Char) : Bool :=
  if c.toNat < 128 then c.isLower else onRun lowercaseRuns c.toNat

def isAlphanumeric (c : Char) : Bool :=
  if c.toNat < 128 then c.isAlphanum else onRun alphanumericRuns c.toNat

/-- First character of an identifier: `_` or a letter. -/
def isIdentifierStart (c : Char) : Bool :=
  if c.toNat < 128 then c.isAlpha || c == '_' else onRun identifierStartRuns c.toNat

/-- Further character of an identifier. -/
def isIdentifierPart (c : Char) : Bool :=
  if c.toNat < 128 then c.isAlphanum || c == '_' else onRun identifierPartRuns c.toNat

/-- The small form of one character.  It does not depend on the characters around it, and only U+0130
has two characters in its small form. -/
def toSmall (c : Char) : Text :=
  if c.toNat < 128 then [c.toLower]
  else if c.toNat == 0x130 then ['i', Char.ofNat 0x307]
  else match smallLetterRuns.find? fun r => onRun [r.1] c.toNat with
    | some (_, shift) => [Char.ofNat (Int.toNat (Int.ofNat c.toNat + shift))]
    | none => [c]

def trimStart (t : Text) : Text := t.dropWhile isWhite

def trimEnd (t : Text) : Text := (t.reverse.dropWhile isWhite).reverse

def trim (t : Text) : Text := trimEnd (trimStart t)

/-- The pieces between the occurrences of a separator; there is one more piece than separators. -/
def splitAt (sep : Char) : Text → List Text
  | [] => [[]]
  | c :: cs =>
    if c == sep then [] :: splitAt sep cs
    else match splitAt sep cs with
      | [] => [[c]]
      | piece :: pieces => (c :: piece) :: pieces

theorem splitAt_ne_nil (sep : Char) (t : Text) : splitAt sep t ≠ [] := by
  cases t with
  | nil => simp [splitAt]
  | cons c cs =>
    rw [splitAt]
    split
    · simp
    · split <;> simp

def joinWith (sep : Text) : List Text → Text
  | [] => []
  | [t] => t
  | t :: ts => t ++ sep ++ joinWith sep ts

/-- Removes one carriage return at the end. -/
def dropReturn (t : Text) : Text :=
  if t.getLast? = some '\r' then t.dropLast else t

/-- The lines of a text.  A line ends with a line feed, and a carriage return before it belongs to the
line end.  Nothing after the last line feed is no line. -/
def lines (t : Text) : List Text :=
  let pieces := splitAt '\n' t
  let unfinished := pieces.getLast?.getD []
  pieces.dropLast.map dropReturn ++ (if unfinished.isEmpty then [] else [unfinished])

/-- The first line, or nothing for an empty text. -/
def firstLine? (t : Text) : Option Text := (lines t).head?

/-- The rest of a text after the start that is asked for. -/
def after? : (start t : Text) → Option Text
  | [], t => some t
  | _ :: _, [] => none
  | s :: ss, c :: cs => if s == c then after? ss cs else none

def startsWith (start t : Text) : Bool := (after? start t).isSome

def endsWith (tail t : Text) : Bool := startsWith tail.reverse t.reverse

/-- The part of a text before the end that is asked for. -/
def before? (tail t : Text) : Option Text := (after? tail.reverse t.reverse).map List.reverse

/-- The rest of a text after the first `*/`. -/
def afterCommentEnd? : Text → Option Text
  | [] => none
  | '*' :: '/' :: rest => some rest
  | _ :: rest => afterCommentEnd? rest

/-- The parts before and after the first occurrence of a separator. -/
def splitOnce? (sep : Char) (t : Text) : Option (Text × Text) :=
  match t.span (· != sep) with
  | (front, _ :: back) => some (front, back)
  | (_, []) => none

def byteSize : Text → Nat
  | [] => 0
  | c :: cs => c.utf8Size + byteSize cs

/-- The digit of a number below sixteen, with small letters. -/
def hexDigit (n : Nat) : Char := (Nat.toDigits 16 n).headD '0'

/-- Order by code points, which is also the order of the UTF-8 bytes. -/
def le (a b : Text) : Bool := !decide (b < a)

end Text

end GoCommands
