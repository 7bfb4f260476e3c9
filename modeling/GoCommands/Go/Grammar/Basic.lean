import GoCommands.Go.Reader

/-!
# The recursive parts of the grammar

Types, expressions and statements contain each other.  The readers of one nesting level are written
over those of the level below, which `Grammar` bundles.
-/

namespace GoCommands.Go

/-- What may come directly behind an expression.  It decides how the tokens there are read. -/
structure Follow where
  /-- A line break ends the expression. -/
  line : Bool
  /-- A brace opens the body of a statement. -/
  body : Bool
  /-- `<-` sends; otherwise it is `<` and `-`. -/
  send : Bool
  /-- `++` and `--` are statements; otherwise they are two operators. -/
  step : Bool

namespace Follow

def inside : Follow := ⟨false, false, false, false⟩

def ending : Follow := ⟨true, false, false, false⟩

end Follow

/-- Readers for what is nested one level deeper. -/
structure Grammar where
  /-- A type; the flag says that a line break ends it. -/
  type : Bool → Reader TypeExpr
  expr : Follow → Reader Expr
  block : Reader (List Statement)
  /-- A statement; the flag says that it may end the file without a line break. -/
  statement : Reader (Statement × Bool)
  conditional : Reader Unit
  literalValue : Reader Unit

/-- Below the deepest level nothing is read. -/
def Grammar.none : Grammar :=
  ⟨fun _ _ => .none, fun _ _ => .none, fun _ => .none, fun _ => .none, fun _ => .none, fun _ => .none⟩

end GoCommands.Go
