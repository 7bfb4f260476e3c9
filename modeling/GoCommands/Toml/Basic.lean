import GoCommands.Text.Basic

/-!
# Tables of a TOML document

A document is a sequence of assignments and headers.  Each of them adds to the table of the document,
or is refused because it would define something twice.
-/

namespace GoCommands.Toml

/-- How a table came about.  Dotted keys only add to tables of their own kind and to implied ones, and a
header only completes an implied table. -/
inductive Origin where
  /-- By the header of a table inside. -/
  | implied
  | dotted
  | header
  | inline
deriving DecidableEq, Repr

inductive Value where
  | text (t : Text)
  | flag (b : Bool)
  /-- A number, a date or a time. -/
  | scalar
  | array (items : List Value)
  | table (origin : Origin) (fields : List (Text × Value))
  /-- Tables that each have a header; the last one is first. -/
  | tables (last : List (Text × Value)) (before : List Value)
deriving Repr

abbrev Table := List (Text × Value)

inductive Line where
  | assign (path : List Text) (value : Value)
  | header (path : List Text)
  /-- Header of one more table of a list. -/
  | itemHeader (path : List Text)
deriving Repr

namespace Table

def get? (t : Table) (key : Text) : Option Value := (t.find? fun f => f.1 == key).map (·.2)

/-- Puts a value in place of one with the same key, or at the end. -/
def set (t : Table) (key : Text) (v : Value) : Table :=
  if t.any fun f => f.1 == key then t.map fun f => if f.1 == key then (key, v) else f
  else t ++ [(key, v)]

/-- Adds a value under a new key. -/
def add (t : Table) (key : Text) (v : Value) : Option Table :=
  if (t.get? key).isSome then none else some (t.set key v)

def changeAt (f : Table → Option Table) : List Text → Table → Option Table
  | [], t => f t
  | key :: rest, t =>
    match t.get? key with
    | none => (changeAt f rest []).map fun inner => t.set key (.table .implied inner)
    | some (.table .inline _) => none
    | some (.table origin inner) => (changeAt f rest inner).map fun inner => t.set key (.table origin inner)
    | some (.tables last before) => (changeAt f rest last).map fun last => t.set key (.tables last before)
    | some _ => none

/-- Assigns a value to a dotted key. -/
def assign (v : Value) : List Text → Table → Option Table
  | [], _ => none
  | [key], t => t.add key v
  | key :: rest, t =>
    match t.get? key with
    | none => (assign v rest []).map fun inner => t.set key (.table .dotted inner)
    | some (.table .dotted inner) => (assign v rest inner).map fun inner => t.set key (.table .dotted inner)
    | some (.table .implied inner) =>
      if rest.length = 1 then none
      else (assign v rest inner).map fun inner => t.set key (.table .implied inner)
    | some _ => none

/-- Opens the table of a header. -/
def openTable (key : Text) (t : Table) : Option Table :=
  match t.get? key with
  | none => some (t.set key (.table .header []))
  | some (.table .implied inner) => some (t.set key (.table .header inner))
  | some _ => none

/-- Opens one more table of a list. -/
def openItem (key : Text) (t : Table) : Option Table :=
  match t.get? key with
  | none => some (t.set key (.tables [] []))
  | some (.tables last before) => some (t.set key (.tables [] (.table .header last :: before)))
  | some _ => none

/-- Adds a line to a document; the keys are those of the header above the line. -/
def addLine : Table × List Text → Line → Option (Table × List Text)
  | (t, section_), .assign path v => (changeAt (assign v path) section_ t).map fun t => (t, section_)
  | (t, _), .header path => do
    let key ← path.getLast?
    let t ← changeAt (openTable key) path.dropLast t
    some (t, path)
  | (t, _), .itemHeader path => do
    let key ← path.getLast?
    let t ← changeAt (openItem key) path.dropLast t
    some (t, path)

def ofLines (lines : List Line) : Option Table := (lines.foldlM addLine ([], [])).map (·.1)

end Table

end GoCommands.Toml
