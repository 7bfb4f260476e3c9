import GoCommands.Package.Model

/-!
# Models as JSON
-/

namespace GoCommands

/-- JSON values; the fields of an object keep their order. -/
inductive Json where
  | flag (b : Bool)
  | text (t : Text)
  | array (items : List Json)
  | object (fields : List (Text × Json))
deriving Repr

namespace Json

/-- A character within a string.  Of the characters that need not be escaped none is. -/
def escape (c : Char) : Text :=
  if c == '"' then ['\\', '"']
  else if c == '\\' then ['\\', '\\']
  else if c == '\n' then ['\\', 'n']
  else if c == '\r' then ['\\', 'r']
  else if c == '\t' then ['\\', 't']
  else if c.toNat == 8 then ['\\', 'b']
  else if c.toNat == 12 then ['\\', 'f']
  else if c.toNat < 0x20 then 
    ['\\', 'u', '0', '0', Text.hexDigit (c.toNat / 16), Text.hexDigit (c.toNat % 16)]
  else [c]

def quote (t : Text) : Text := '"' :: t.flatMap escape ++ ['"']

/-- A new line at a level of nesting. -/
def newLine (level : Nat) : Text := '\n' :: List.replicate (2 * level) ' '

/-- Items on lines of their own between brackets; without items the brackets stand together. -/
def enclose (level : Nat) (opening closing : Char) (items : List Text) : Text :=
  if items.isEmpty then [opening, closing]
  else
    opening :: newLine (level + 1) ++ Text.joinWith (',' :: newLine (level + 1)) items ++ newLine level ++
      [closing]

mutual

def render (level : Nat) : Json → Text
  | flag b => if b then "true".toList else "false".toList
  | text t => quote t
  | array items => enclose level '[' ']' (renderItems level items)
  | object fields => enclose level '\x7b' '\x7d' (renderFields level fields)

def renderItems (level : Nat) : List Json → List Text
  | [] => []
  | v :: rest => render (level + 1) v :: renderItems level rest

def renderFields (level : Nat) : List (Text × Json) → List Text
  | [] => []
  | (key, v) :: rest => (quote key ++ [':', ' '] ++ render (level + 1) v) :: renderFields level rest

end

/-- A field that is left out for an empty text. -/
def optional (key : String) (t : Text) : List (Text × Json) :=
  if t.isEmpty then [] else [(key.toList, text t)]

def ofKind : CommandKind → Json
  | .function => text "function".toList
  | .type => text "type".toList

def ofCommand (c : CommandInfo) : Json :=
  object ([("name".toList, text c.name), ("kind".toList, ofKind c.kind), ("file".toList, text c.file)] ++
    optional "description" c.description ++
    [("uses_context".toList, flag c.invocation.usesContext),
      ("returns_error".toList, flag c.invocation.returnsError)])

def ofFile (f : FileInfo) : Json :=
  object [("path".toList, text f.path), ("base_name".toList, text f.baseName),
    ("commands".toList, array (f.commands.map ofCommand))]

def ofModel (m : PackageModel) : Json :=
  object ([("dir".toList, text m.dir), ("package_name".toList, text m.packageName)] ++
    optional "doc" m.doc ++
    [("commands".toList, array (m.commands.map ofCommand)),
      ("files".toList, array (m.files.map ofFile))])

def ofModels (ms : List PackageModel) : Json := array (ms.map ofModel)

end Json

end GoCommands
