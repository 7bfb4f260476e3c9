import GoCommands.Wrapper.DirectoryScan
import GoCommands.Package.Assembly

/-!
# Writing wrapper types

For each function a type is written that has its name with `Command` behind it, with the methods `Run`,
`Name` and, for a documented function, `Description`.
-/

namespace GoCommands.Wrapper

/-- Comment by which tools know generated code. -/
def marker : Text := "// Code generated by gantry. DO NOT EDIT.".toList

/-- Name of the type that wraps a function. -/
def typeName (function : Text) : Text := function ++ wrapperSuffix

/-- A character within a string literal. -/
def quoteChar (c : Char) : Text :=
  if c == '"' then ['\\', '"']
  else if c == '\\' then ['\\', '\\']
  else if c == '\n' then ['\\', 'n']
  else if c == '\r' then ['\\', 'r']
  else if c == '\t' then ['\\', 't']
  else if c.toNat < 0x20 || c.toNat == 0x7f then
    ['\\', 'x', Text.hexDigit (c.toNat / 16), Text.hexDigit (c.toNat % 16)]
  else [c]

def quote (t : Text) : Text := '"' :: t.flatMap quoteChar ++ ['"']

def line (parts : List Text) : Text := parts.flatten ++ ['\n']

def blankLine : Text := ['\n']

/-- A method without parameters that returns a string literal. -/
def constantMethod (type method value : Text) : Text :=
  line ["func (".toList, type, ") ".toList, method, "() string \x7b".toList] ++
    line ["\treturn ".toList, quote value] ++ line [['\x7d']] ++ blankLine

def runMethod (f : WrappedFunction) : Text :=
  let params := if f.invocation.usesContext then "ctx context.Context".toList else []
  let args := if f.invocation.usesContext then "ctx".toList else []
  let result := if f.invocation.returnsError then " error".toList else []
  let call := if f.invocation.returnsError then "\treturn ".toList else ['\t']
  line ["func (".toList, typeName f.name, ") Run(".toList, params, [')'], result, " \x7b".toList] ++
    line [call, f.name, ['('], args, [')']] ++ line [['\x7d']] ++ blankLine

def wrapper (f : WrappedFunction) : Text :=
  let type := typeName f.name
  line ["// ".toList, type, " runs ".toList, f.name, " as a command.".toList] ++
    line ["type ".toList, type, " struct\x7b\x7d".toList] ++ blankLine ++
    runMethod f ++ constantMethod type "Name".toList f.name ++
    (match f.description with
      | some description => constantMethod type "Description".toList description
      | none => [])

/-- A source file with the wrappers of some functions. -/
def unit (package : Text) (tag : Option Text) (functions : List WrappedFunction) : Text :=
  (match tag with
    | some tag => line ["//go:build ".toList, tag] ++ blankLine
    | none => []) ++
    line [marker] ++ blankLine ++ line ["package ".toList, package] ++ blankLine ++
    (if functions.any (·.invocation.usesContext) then
      line ["import \"".toList, Go.contextPackage, ['"']] ++ blankLine
    else []) ++
    functions.flatMap wrapper

end GoCommands.Wrapper
