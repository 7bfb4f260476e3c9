import GoCommands.Text.Basic

/-!
# Command names

A command answers to the kebab-case form of its identifier: small letters, with a hyphen before each
word.
-/

namespace GoCommands.CommandName

/-- A capital starts a word after a small letter, and before one: the second rule lets an acronym
hand its last letter to the following word. -/
def startsWord (prev : Option Char) (c : Char) (next : Option Char) : Bool :=
  Text.isCapital c && match prev with
    | none => false
    | some p => Text.isSmall p || next.any Text.isSmall

def kebabFrom (prev : Option Char) : Text → Text
  | [] => []
  | c :: cs =>
    (if startsWord prev c cs.head? then ['-'] else []) ++ Text.toSmall c ++ kebabFrom (some c) cs

/-- The command name of an identifier: `APIServer` becomes `api-server`. -/
def ofIdentifier (ident : Text) : Text := kebabFrom none ident

/-- Exported identifiers start with a capital letter. -/
def isExported (ident : Text) : Bool := ident.head?.any Text.isCapital

end GoCommands.CommandName
