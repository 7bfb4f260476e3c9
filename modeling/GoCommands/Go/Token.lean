import GoCommands.Text.Basic

/-!
# Tokens of Go source

A source file is a list of lexemes: each is a token with the white space and the comments before it.
Nothing of the source is lost, so the text of a declaration is the text of its lexemes.
-/

namespace GoCommands.Go

inductive Keyword where
  | break_ | case_ | chan | const | continue_ | default_ | defer_ | else_ | fallthrough | for_
  | func | go | goto | if_ | import_ | interface | map | package | range | return_
  | select | struct | switch | type | var
deriving DecidableEq, Repr

namespace Keyword

def text : Keyword → Text
  | break_ => "break".toList
  | case_ => "case".toList
  | chan => "chan".toList
  | const => "const".toList
  | continue_ => "continue".toList
  | default_ => "default".toList
  | defer_ => "defer".toList
  | else_ => "else".toList
  | fallthrough => "fallthrough".toList
  | for_ => "for".toList
  | func => "func".toList
  | go => "go".toList
  | goto => "goto".toList
  | if_ => "if".toList
  | import_ => "import".toList
  | interface => "interface".toList
  | map => "map".toList
  | package => "package".toList
  | range => "range".toList
  | return_ => "return".toList
  | select => "select".toList
  | struct => "struct".toList
  | switch => "switch".toList
  | type => "type".toList
  | var => "var".toList

def all : List Keyword :=
  [break_, case_, chan, const, continue_, default_, defer_, else_, fallthrough, for_, func, go, goto,
    if_, import_, interface, map, package, range, return_, select, struct, switch, type, var]

def ofText? (word : Text) : Option Keyword := all.find? fun k => k.text == word

end Keyword

inductive Symbol where
  | parenOpen | parenClose | bracketOpen | bracketClose | braceOpen | braceClose
  | comma | semicolon | colon | dot | ellipsis | define | assign
  | star | slash | percent | shiftLeft | shiftRight | and | andNot | plus | minus | or | xor
  | equal | notEqual | less | lessEqual | greater | greaterEqual | logicalAnd | logicalOr
  | not | tilde | arrow | increment | decrement
  /-- An operator followed by `=`. -/
  | assignOp (operator : Text)
  /-- The null character, which ends a statement. -/
  | null
deriving DecidableEq, Repr

namespace Symbol

def text : Symbol → Text
  | parenOpen => ['(']
  | parenClose => [')']
  | bracketOpen => ['[']
  | bracketClose => [']']
  | braceOpen => ['\x7b']
  | braceClose => ['\x7d']
  | comma => [',']
  | semicolon => [';']
  | colon => [':']
  | dot => ['.']
  | ellipsis => ['.', '.', '.']
  | define => [':', '=']
  | assign => ['=']
  | star => ['*']
  | slash => ['/']
  | percent => ['%']
  | shiftLeft => ['<', '<']
  | shiftRight => ['>', '>']
  | and => ['&']
  | andNot => ['&', '^']
  | plus => ['+']
  | minus => ['-']
  | or => ['|']
  | xor => ['^']
  | equal => ['=', '=']
  | notEqual => ['!', '=']
  | less => ['<']
  | lessEqual => ['<', '=']
  | greater => ['>']
  | greaterEqual => ['>', '=']
  | logicalAnd => ['&', '&']
  | logicalOr => ['|', '|']
  | not => ['!']
  | tilde => ['~']
  | arrow => ['<', '-']
  | increment => ['+', '+']
  | decrement => ['-', '-']
  | assignOp operator => operator ++ ['=']
  | null => ['\x00']

/-- The longest symbol at the start of a text, and the rest. -/
def read? : Text → Option (Symbol × Text)
  | '(' :: r => some (parenOpen, r)
  | ')' :: r => some (parenClose, r)
  | '[' :: r => some (bracketOpen, r)
  | ']' :: r => some (bracketClose, r)
  | '\x7b' :: r => some (braceOpen, r)
  | '\x7d' :: r => some (braceClose, r)
  | ',' :: r => some (comma, r)
  | ';' :: r => some (semicolon, r)
  | ':' :: '=' :: r => some (define, r)
  | ':' :: r => some (colon, r)
  | '.' :: '.' :: '.' :: r => some (ellipsis, r)
  | '.' :: r => some (dot, r)
  | '=' :: '=' :: r => some (equal, r)
  | '=' :: r => some (assign, r)
  | '*' :: '=' :: r => some (assignOp ['*'], r)
  | '*' :: r => some (star, r)
  | '/' :: '=' :: r => some (assignOp ['/'], r)
  | '/' :: r => some (slash, r)
  | '%' :: '=' :: r => some (assignOp ['%'], r)
  | '%' :: r => some (percent, r)
  | '<' :: '<' :: '=' :: r => some (assignOp ['<', '<'], r)
  | '<' :: '<' :: r => some (shiftLeft, r)
  | '<' :: '=' :: r => some (lessEqual, r)
  | '<' :: '-' :: r => some (arrow, r)
  | '<' :: r => some (less, r)
  | '>' :: '>' :: '=' :: r => some (assignOp ['>', '>'], r)
  | '>' :: '>' :: r => some (shiftRight, r)
  | '>' :: '=' :: r => some (greaterEqual, r)
  | '>' :: r => some (greater, r)
  | '&' :: '^' :: '=' :: r => some (assignOp ['&', '^'], r)
  | '&' :: '^' :: r => some (andNot, r)
  | '&' :: '&' :: r => some (logicalAnd, r)
  | '&' :: '=' :: r => some (assignOp ['&'], r)
  | '&' :: r => some (and, r)
  | '|' :: '|' :: r => some (logicalOr, r)
  | '|' :: '=' :: r => some (assignOp ['|'], r)
  | '|' :: r => some (or, r)
  | '+' :: '+' :: r => some (increment, r)
  | '+' :: '=' :: r => some (assignOp ['+'], r)
  | '+' :: r => some (plus, r)
  | '-' :: '-' :: r => some (decrement, r)
  | '-' :: '=' :: r => some (assignOp ['-'], r)
  | '-' :: r => some (minus, r)
  | '^' :: '=' :: r => some (assignOp ['^'], r)
  | '^' :: r => some (xor, r)
  | '!' :: '=' :: r => some (notEqual, r)
  | '!' :: r => some (not, r)
  | '~' :: r => some (tilde, r)
  | '\x00' :: r => some (null, r)
  | _ => none

end Symbol

inductive Token where
  | keyword (k : Keyword)
  /-- Any other word, the predeclared ones included. -/
  | word (name : Text)
  | number (literal : Text)
  | rune (literal : Text)
  /-- A literal in double quotes. -/
  | string (literal : Text)
  /-- A literal in backquotes. -/
  | rawString (literal : Text)
  | symbol (s : Symbol)
  | eof
deriving DecidableEq, Repr

def Token.text : Token → Text
  | .keyword k => k.text
  | .word t | .number t | .rune t | .string t | .rawString t => t
  | .symbol s => s.text
  | .eof => []

/-- What stands between two tokens. -/
inductive Trivia where
  | blank (text : Text)
  | comment (text : Text)
deriving DecidableEq, Repr

def Trivia.text : Trivia → Text
  | .blank t | .comment t => t

structure Lexeme where
  before : List Trivia
  token : Token
deriving DecidableEq, Repr

namespace Lexeme

def text (l : Lexeme) : Text := l.before.flatMap Trivia.text ++ l.token.text

/-- There is a line break between this token and the one before it.  Those inside comments do not
count. -/
def onNewLine (l : Lexeme) : Bool :=
  l.before.any fun
    | .blank t => t.contains '\n'
    | .comment _ => false

/-- The comment that follows the token before this one. -/
def firstComment (l : Lexeme) : Option Text :=
  l.before.findSome? fun
    | .comment t => some t
    | .blank _ => none

end Lexeme

/-- The source text of adjacent lexemes, from the first token on. -/
def sourceOf : List Lexeme → Text
  | [] => []
  | l :: ls => l.token.text ++ ls.flatMap Lexeme.text

def stringLiterals (ls : List Lexeme) : List Token :=
  (ls.map Lexeme.token).filter fun
    | .string _ | .rawString _ => true
    | _ => false

end GoCommands.Go
