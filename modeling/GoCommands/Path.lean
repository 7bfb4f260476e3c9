import GoCommands.Text.Basic

/-!
# Paths

A path is kept as it is written.  Its components leave out empty pieces and `.`, except a `.` at the
start of a relative path; two paths with the same components are the same path, and paths are ordered
by their components.
-/

namespace GoCommands

abbrev Path := Text

namespace Path

inductive Component where
  | root
  /-- `.` at the start. -/
  | here
  | up
  | name (n : Text)
deriving DecidableEq, Repr

def isAbsolute (p : Path) : Bool := p.head? == some '/'

/-- A piece between slashes that stands for a component. -/
def componentOf (piece : Text) : Option Component :=
  if piece.isEmpty || piece == ['.'] then none
  else if piece == ['.', '.'] then some .up
  else some (.name piece)

def components (p : Path) : List Component :=
  let pieces := Text.splitAt '/' p
  let start :=
    if isAbsolute p then [.root] else if pieces.head? == some ['.'] then [.here] else []
  start ++ pieces.filterMap componentOf

def fileName (p : Path) : Option Text :=
  match p.components.getLast? with
  | some (.name n) => some n
  | _ => none

/-- Leaves out slashes and `.` at the end of a path that is written backwards. -/
def trimmed : Text → Text
  | ['/'] => ['/']
  | '/' :: rest => trimmed rest
  | '.' :: '/' :: rest => trimmed ('/' :: rest)
  | p => p

/-- The path without its last component.  The empty path and the root have no parent. -/
def parent (p : Path) : Option Path :=
  match trimmed p.reverse with
  | [] => none
  | ['/'] => none
  | q => some (trimmed (q.dropWhile (· != '/'))).reverse

/-- The path behind another one; an absolute path replaces it. -/
def join (base p : Path) : Path :=
  if isAbsolute p || base.isEmpty then p
  else if base.getLast? == some '/' then base ++ p
  else base ++ '/' :: p

/-- Numbers that order components: the root, `.`, `..`, then names. -/
def Component.rank : Component → List Nat
  | .root => [0]
  | .here => [1]
  | .up => [2]
  | .name n => 3 :: n.map Char.toNat

def rank (p : Path) : List (List Nat) := p.components.map Component.rank

/-- Order by components. -/
def le (p q : Path) : Bool := !decide (q.rank < p.rank)

def same (p q : Path) : Bool := p.components == q.components

/-- A place reached from the root or from the working directory by the names in their order. -/
structure Location where
  absolute : Bool
  names : List Text
deriving DecidableEq, Repr

namespace Location

/-- Goes along one component.  `..` takes back the last step, whatever it was, and is a step of its own
where there is none. -/
def step (l : Location) : Component → Location
  | .root => ⟨true, []⟩
  | .here => l
  | .up => match l.names with
    | [] => { l with names := [['.', '.']] }
    | _ :: _ => { l with names := l.names.dropLast }
  | .name n => { l with names := l.names ++ [n] }

def render (l : Location) : Path :=
  if l.absolute then '/' :: Text.joinWith ['/'] l.names
  else if l.names.isEmpty then ['.']
  else Text.joinWith ['/'] l.names

end Location

/-- Where a path leads, without looking at any directory. -/
def location (p : Path) : Location := p.components.foldl Location.step ⟨false, []⟩

/-- The path without `.`, and with each `..` taken together with the component before it. -/
def normalize (p : Path) : Path := p.location.render

/-- The directory of a normalized path; `.` is the top of the relative ones. -/
def directory (p : Path) : Option Path :=
  if p == ['.'] then none
  else match p.parent with
    | some [] => some ['.']
    | other => other

end Path

end GoCommands
