import GoCommands.Text.Basic

/-!
# Build constraints

A build constraint is a boolean expression over tags.  `Constraint.render` writes it with every binary
operator in parentheses.
-/

namespace GoCommands

inductive Constraint where
  | tag (name : Text)
  | not (operand : Constraint)
  | and (left right : Constraint)
  | or (left right : Constraint)
deriving DecidableEq, Repr

namespace Constraint

def eval (isSet : Text → Bool) : Constraint → Bool
  | tag name => isSet name
  | not e => !e.eval isSet
  | and l r => l.eval isSet && r.eval isSet
  | or l r => l.eval isSet || r.eval isSet

def render : Constraint → Text
  | tag name => name
  | not e => '!' :: e.render
  | and l r => '(' :: l.render ++ " && ".toList ++ r.render ++ [')']
  | or l r => '(' :: l.render ++ " || ".toList ++ r.render ++ [')']

def isTagChar (c : Char) : Bool := Text.isAlphanumeric c || c == '_' || c == '.'

inductive Token where
  | tag (name : Text)
  | not
  | and
  | or
  | open
  | close
deriving DecidableEq, Repr

def Token.render : Token → Text
  | .tag name => name
  | .not => ['!']
  | .and => ['&', '&']
  | .or => ['|', '|']
  | .open => ['(']
  | .close => [')']

inductive SyntaxError where
  | empty
  | unexpectedChar (c : Char) (offset : Nat)
  | unexpectedToken (token : Token)
  | unexpectedEnd
  | unclosed
deriving DecidableEq, Repr

def SyntaxError.message : SyntaxError → Text
  | .empty => "empty build expression".toList
  | .unexpectedChar c offset =>
    "unexpected character '".toList ++ [c] ++ "' at offset ".toList ++ (toString offset).toList
  | .unexpectedToken token => "unexpected token '".toList ++ token.render ++ ['\'']
  | .unexpectedEnd => "unexpected end of expression".toList
  | .unclosed => "missing closing parenthesis".toList

end Constraint

end GoCommands
