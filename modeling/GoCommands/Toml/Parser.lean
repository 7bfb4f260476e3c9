import GoCommands.Toml.Basic
import GoCommands.Toml.Strings

/-!
# Reading a TOML document
-/

namespace GoCommands.Toml

namespace Parser

open Strings

def skipBlanks (t : Text) : Text := t.dropWhile isBlank

def skipComment : Text → Text
  | '#' :: rest => rest.dropWhile isPlain
  | t => t

/-- Skips blanks, comments and line breaks. -/
def skipGap : (fuel : Nat) → Text → Text
  | 0, t => t
  | fuel + 1, t =>
    let t := skipComment (skipBlanks t)
    match afterBreak? t with
    | some rest => skipGap fuel rest
    | none => t

def isBareKeyPart (c : Char) : Bool := c.isAlphanum || c == '_' || c == '-'

def simpleKey? (t : Text) : Option (Text × Text) :=
  match t with
  | '"' :: _ => line? t
  | '\'' :: _ => line? t
  | _ =>
    let (key, rest) := t.span isBareKeyPart
    if key.isEmpty then none else some (key, rest)

def key? : (fuel : Nat) → Text → Option (List Text × Text)
  | 0, _ => none
  | fuel + 1, t => do
    let (key, rest) ← simpleKey? (skipBlanks t)
    match skipBlanks rest with
    | '.' :: rest =>
      let (keys, rest) ← key? fuel rest
      some (key :: keys, rest)
    | rest => some ([key], rest)

/-- Arrays and inline tables are at most this many levels deep. -/
def depthLimit : Nat := 80

mutual

def value? : (fuel depth : Nat) → Text → Option (Value × Text)
  | 0, _, _ => none
  | fuel + 1, depth, t =>
    match t with
    | '[' :: rest =>
      match depth with
      | 0 => none
      | depth + 1 => (items? fuel depth rest).map fun (items, rest) => (.array items, rest)
    | '\x7b' :: rest =>
      match depth with
      | 0 => none
      | depth + 1 =>
        match skipBlanks rest with
        | '\x7d' :: rest => some (.table .inline [], rest)
        | rest => (fields? fuel depth [] rest).map fun (fields, rest) => (.table .inline fields, rest)
    | '"' :: _ => (Strings.read? t).map fun (s, rest) => (.text s, rest)
    | '\'' :: _ => (Strings.read? t).map fun (s, rest) => (.text s, rest)
    | _ =>
      let (word, rest) := t.span Scalar.isPart
      if word == "true".toList then some (.flag true, rest)
      else if word == "false".toList then some (.flag false, rest)
      else (Scalar.read? t).map fun rest => (.scalar, rest)

/-- Reads the items of an array and its closing bracket. -/
def items? : (fuel depth : Nat) → Text → Option (List Value × Text)
  | 0, _, _ => none
  | fuel + 1, depth, t =>
    match skipGap t.length t with
    | ']' :: rest => some ([], rest)
    | t => do
      let (v, rest) ← value? fuel depth t
      match skipGap rest.length rest with
      | ']' :: rest => some ([v], rest)
      | ',' :: rest =>
        let (vs, rest) ← items? fuel depth rest
        some (v :: vs, rest)
      | _ => none

/-- Reads the fields of an inline table behind those in `fields`, and its closing brace. -/
def fields? : (fuel depth : Nat) → Table → Text → Option (Table × Text)
  | 0, _, _, _ => none
  | fuel + 1, depth, fields, t =>
    match key? t.length t with
    | some (path, '=' :: rest) => do
      let (v, rest) ← value? fuel depth (skipBlanks rest)
      let fields ← Table.assign v path fields
      match skipBlanks rest with
      | '\x7d' :: rest => some (fields, rest)
      | ',' :: rest => fields? fuel depth fields rest
      | _ => none
    | _ => none

end

def content? (t : Text) : Option (List Line × Text) :=
  match t with
  | '[' :: '[' :: rest =>
    match key? rest.length rest with
    | some (path, ']' :: ']' :: rest) => some ([.itemHeader path], rest)
    | _ => none
  | '[' :: rest =>
    match key? rest.length rest with
    | some (path, ']' :: rest) => some ([.header path], rest)
    | _ => none
  | [] => some ([], t)
  | c :: _ =>
    if c == '#' || c == '\n' || c == '\r' then some ([], t)
    else match key? t.length t with
      | some (path, '=' :: rest) =>
        let rest := skipBlanks rest
        (value? (3 * rest.length + 3) depthLimit rest).map fun (v, rest) => ([.assign path v], rest)
      | _ => none

/-- Reads at most `fuel` lines. -/
def lines? : (fuel : Nat) → Text → Option (List Line)
  | 0, _ => none
  | fuel + 1, t => do
    let (line, rest) ← content? (skipBlanks t)
    match skipComment (skipBlanks rest) with
    | [] => some line
    | rest => do
      let rest ← afterBreak? rest
      let more ← lines? fuel rest
      some (line ++ more)

end Parser

/-- The table of a document; none if the text is no TOML document.  A byte order mark at the start is
skipped. -/
def parse (t : Text) : Option Table :=
  let t := if t.head? == some (Char.ofNat 0xFEFF) then t.drop 1 else t
  (Parser.lines? (t.length + 1) t).bind Table.ofLines

end GoCommands.Toml
