import GoCommands.StructTag.Lookup

/-!
# Field annotations

The value under the key `gantry` of a struct tag is a comma-separated list of items `key` or
`key=value`.  It says whether the field is a subcommand of its type, and under which name.
-/

namespace GoCommands.StructTag

/-- Key of the annotation in a struct tag. -/
def annotationKey : Text := "gantry".toList

structure Annotation where
  /-- The field is a subcommand of the type that declares it. -/
  subcommand : Bool
  /-- The name given in the annotation, if any. -/
  name : Option Text
deriving DecidableEq, Repr

namespace Annotation

def none : Annotation := ⟨false, .none⟩

/-- Takes one item into account.  An empty name is ignored, and so is an item of another kind. -/
def addItem (a : Annotation) (item : Text) : Annotation :=
  let item := Text.trim item
  match Text.splitOnce? '=' item with
  | .none => if item == "subcommand".toList then { a with subcommand := true } else a
  | some (key, value) =>
    let key := Text.trim key
    let value := Text.trim value
    let name := if value.isEmpty then a.name else some value
    if key == "subcommand".toList then ⟨true, name⟩
    else if key == "name".toList then { a with name := name }
    else a

/-- Reads the items from the left; the last name wins. -/
def parse (value : Text) : Annotation := (Text.splitAt ',' value).foldl addItem none

/-- The annotation in a struct tag, if the tag has the key. -/
def ofStructTag (tag : Text) : Option Annotation := (lookup tag annotationKey).map parse

end Annotation

end GoCommands.StructTag
