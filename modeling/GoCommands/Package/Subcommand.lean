import GoCommands.Go.Literal
import GoCommands.Go.TypeName
import GoCommands.CommandName

/-!
# Subcommand links

A struct field can be marked as a subcommand of its type by an annotation in its tag.
-/

namespace GoCommands

structure SubcommandLink where
  /-- Type that declares the field. -/
  parent : Text
  field : Text
  /-- Name the subcommand answers to. -/
  name : Text
  /-- Name of the type of the field. -/
  childType : Text
deriving DecidableEq, Repr

namespace SubcommandLink

/-- The annotation in the tag of a field, if it marks a subcommand. -/
def annotationOf (field : Go.Field) : Option StructTag.Annotation :=
  ((field.tag.bind Go.stringValue).bind StructTag.Annotation.ofStructTag).filter (·.subcommand)

/-- The names of a field; an embedded field is named after its type, without the package. -/
def fieldNames (field : Go.Field) : List Text :=
  if field.names.isEmpty then [(Text.splitAt '.' field.type.baseName).getLast?.getD []]
  else field.names

/-- The links of one field declaration, one for each name. -/
def ofField (parent : Text) (field : Go.Field) : List SubcommandLink :=
  match annotationOf field with
  | none => []
  | some annotation =>
    (fieldNames field).map fun name =>
      ⟨parent, name, annotation.name.getD (CommandName.ofIdentifier name), field.type.baseName⟩

def ofFields (parent : Text) (fields : List Go.Field) : List SubcommandLink :=
  fields.flatMap (ofField parent)

/-- The links of a type, if it is a struct. -/
def ofType (parent : Text) : Go.TypeExpr → List SubcommandLink
  | .struct fields _ => ofFields parent fields
  | _ => []

end SubcommandLink

end GoCommands
