import GoCommands.Text.Basic

/-!
# Log levels
-/

namespace GoCommands

inductive LogLevel where
  | error
  | warn
  | info
  | debug
  | trace
deriving DecidableEq, Repr

namespace LogLevel

def standard : LogLevel := .warn

def all : List LogLevel := [.error, .warn, .info, .debug, .trace]

def name : LogLevel → Text
  | error => "error".toList
  | warn => "warn".toList
  | info => "info".toList
  | debug => "debug".toList
  | trace => "trace".toList

def ofName? (t : Text) : Option LogLevel := all.find? fun l => l.name == t

/-- The level that a text means: the case of letters does not matter, and `warning` is `warn`. -/
def ofText? (t : Text) : Option LogLevel :=
  let t := t.flatMap Text.toSmall
  if t == "warning".toList then some .warn else ofName? t

end LogLevel

end GoCommands
