import GoCommands.Constraint.Expr

/-!
# Reading build constraints

`!` binds tightest, then `&&`, then `||`; both binary operators group to the left.
-/

namespace GoCommands.Constraint

/-- Splits a text into tokens.  A tag is as long as possible.  `offset` is the number of bytes already
read. -/
def tokens (offset : Nat) : Text → Except SyntaxError (List Token)
  | [] => .ok []
  | c :: cs =>
    if Text.isWhite c then tokens (offset + c.utf8Size) cs
    else if c == '(' then (Token.open :: ·) <$> tokens (offset + 1) cs
    else if c == ')' then (Token.close :: ·) <$> tokens (offset + 1) cs
    else if c == '!' then (Token.not :: ·) <$> tokens (offset + 1) cs
    else if c == '&' || c == '|' then
      match cs with
      | d :: rest =>
        if d == c then
          ((if c == '&' then Token.and else Token.or) :: ·) <$> tokens (offset + 2) rest
        else .error (.unexpectedChar c offset)
      | [] => .error (.unexpectedChar c offset)
    else if isTagChar c then
      have := (List.dropWhile_suffix (l := cs) isTagChar).length_le
      let word := c :: cs.takeWhile isTagChar
      (Token.tag word :: ·) <$> tokens (offset + Text.byteSize word) (cs.dropWhile isTagChar)
    else .error (.unexpectedChar c offset)
termination_by t => t.length

abbrev Reading := Except SyntaxError (Constraint × List Token)

mutual

def disjunction : (fuel : Nat) → List Token → Reading
  | 0, _ => .error .unexpectedEnd
  | n + 1, ts => do
    let (left, rest) ← conjunction n ts
    disjunctionTail n left rest

/-- Reads `|| operand` as often as it is there. -/
def disjunctionTail : (fuel : Nat) → Constraint → List Token → Reading
  | n + 1, left, .or :: ts => do
    let (right, rest) ← conjunction n ts
    disjunctionTail n (.or left right) rest
  | _, left, ts => .ok (left, ts)

def conjunction : (fuel : Nat) → List Token → Reading
  | 0, _ => .error .unexpectedEnd
  | n + 1, ts => do
    let (left, rest) ← negation n ts
    conjunctionTail n left rest

/-- Reads `&& operand` as often as it is there. -/
def conjunctionTail : (fuel : Nat) → Constraint → List Token → Reading
  | n + 1, left, .and :: ts => do
    let (right, rest) ← negation n ts
    conjunctionTail n (.and left right) rest
  | _, left, ts => .ok (left, ts)

def negation : (fuel : Nat) → List Token → Reading
  | 0, _ => .error .unexpectedEnd
  | n + 1, .not :: ts => do
    let (operand, rest) ← negation n ts
    .ok (.not operand, rest)
  | n + 1, ts => atom n ts

def atom : (fuel : Nat) → List Token → Reading
  | 0, _ => .error .unexpectedEnd
  | _, [] => .error .unexpectedEnd
  | _, .tag name :: ts => .ok (.tag name, ts)
  | n + 1, .open :: ts => do
    match ← disjunction n ts with
    | (inner, .close :: rest) => .ok (inner, rest)
    | (_, token :: _) => .error (.unexpectedToken token)
    | (_, []) => .error .unclosed
  | _, token :: _ => .error (.unexpectedToken token)

end

/-- Every token costs at most four steps: the way from a disjunction down to an atom. -/
def fuelFor (ts : List Token) : Nat := 4 * ts.length + 4

def ofTokens (ts : List Token) : Except SyntaxError Constraint :=
  match ts with
  | [] => .error .empty
  | _ => do
    match ← disjunction (fuelFor ts) ts with
    | (e, []) => .ok e
    | (_, token :: _) => .error (.unexpectedToken token)

def parse (t : Text) : Except SyntaxError Constraint := do
  ofTokens (← tokens 0 t)

end GoCommands.Constraint
