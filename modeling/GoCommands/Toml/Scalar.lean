import GoCommands.Text.Basic

/-!
# Numbers, dates and times in a TOML document

These values are only told apart from text that is no value.
-/

namespace GoCommands.Toml.Scalar

def isHex (c : Char) : Bool := c.isDigit || ('a' ≤ c && c ≤ 'f') || ('A' ≤ c && c ≤ 'F')

/-- The value of a digit, at most fifteen. -/
def digit (c : Char) : Nat :=
  if c.isDigit then c.toNat - '0'.toNat else c.toLower.toNat - 'a'.toNat + 10

def valueOf (radix : Nat) (digits : Text) : Nat := digits.foldl (fun n c => n * radix + digit c) 0

/-- Digits with underscores that each stand between two digits. -/
def isGrouped (isDigit : Char → Bool) (t : Text) : Bool :=
  (Text.splitAt '_' t).all fun group => !group.isEmpty && group.all isDigit

/-- Grouped digits of a number in the range of 64 bits with sign. -/
def isMagnitude (radix : Nat) (isDigit : Char → Bool) (limit : Nat) (t : Text) : Bool :=
  isGrouped isDigit t && valueOf radix (t.filter (· != '_')) ≤ limit

/-- Decimal digits without a zero in front of others. -/
def isPlain (t : Text) : Bool := isGrouped Char.isDigit t && (t.length == 1 || t.head? != some '0')

/-- The text without a sign, and whether it was a minus. -/
def unsigned : Text → Bool × Text
  | '-' :: t => (true, t)
  | '+' :: t => (false, t)
  | t => (false, t)

def greatest : Nat := 0x7FFFFFFFFFFFFFFF

def isInteger (t : Text) : Bool :=
  match t with
  | '0' :: 'x' :: t => isMagnitude 16 isHex greatest t
  | '0' :: 'o' :: t => isMagnitude 8 (fun c => '0' ≤ c && c ≤ '7') greatest t
  | '0' :: 'b' :: t => isMagnitude 2 (fun c => c == '0' || c == '1') greatest t
  | _ =>
    let (negative, t) := unsigned t
    isPlain t && isMagnitude 10 Char.isDigit (if negative then greatest + 1 else greatest) t

/-- Digits with an optional fraction, at least one of fraction and exponent being there. -/
def isDecimal (t : Text) (exponent : Bool) : Bool :=
  match Text.splitOnce? '.' t with
  | some (whole, fraction) => isPlain whole && isGrouped Char.isDigit fraction
  | none => exponent && isPlain t

def isFloat (t : Text) : Bool :=
  let t := (unsigned t).2
  t == "inf".toList || t == "nan".toList ||
    match t.span fun c => c != 'e' && c != 'E' with
    | (front, _ :: power) => isDecimal front true && isGrouped Char.isDigit (unsigned power).2
    | (front, []) => isDecimal front false

/-- Exactly so many digits with a value in a range. -/
def isField (count low high : Nat) (t : Text) : Bool :=
  t.length == count && t.all Char.isDigit && low ≤ valueOf 10 t && valueOf 10 t ≤ high

def daysIn (year month : Nat) : Nat :=
  if month == 2 then
    if year % 4 == 0 && (year % 100 != 0 || year % 400 == 0) then 29 else 28
  else if [4, 6, 9, 11].contains month then 30
  else 31

def isDate (t : Text) : Bool :=
  match Text.splitAt '-' t with
  | [year, month, day] =>
    isField 4 0 9999 year && isField 2 1 12 month &&
      isField 2 1 (daysIn (valueOf 10 year) (valueOf 10 month)) day
  | _ => false

def isSeconds (t : Text) : Bool :=
  match Text.splitOnce? '.' t with
  | some (whole, fraction) => isField 2 0 60 whole && !fraction.isEmpty && fraction.all Char.isDigit
  | none => isField 2 0 60 t

def isTime (t : Text) : Bool :=
  match Text.splitAt ':' t with
  | [hour, minute, second] => isField 2 0 23 hour && isField 2 0 59 minute && isSeconds second
  | _ => false

/-- A time with or without its distance from universal time. -/
def isZonedTime (t : Text) : Bool :=
  isTime t ||
    match t.span fun c => c.isDigit || c == ':' || c == '.' with
    | (time, [c]) => isTime time && (c == 'Z' || c == 'z')
    | (time, c :: zone) =>
      isTime time && (c == '+' || c == '-') &&
        match Text.splitAt ':' zone with
        | [hour, minute] => isField 2 0 23 hour && isField 2 0 59 minute
        | _ => false
    | _ => false

def isMoment (t : Text) : Bool :=
  isDate t || isTime t ||
    match t.span fun c => c != 'T' && c != 't' with
    | (date, _ :: time) => isDate date && isZonedTime time
    | _ => false

/-- Characters of numbers, dates and times. -/
def isPart (c : Char) : Bool := c.isAlphanum || ['+', '-', '_', '.', ':'].contains c

def read? (t : Text) : Option Text :=
  let (front, rest) := t.span isPart
  if isDate front then
    match rest with
    | ' ' :: behind =>
      let (time, beyond) := behind.span isPart
      if isZonedTime time then some beyond else some rest
    | _ => some rest
  else if isInteger front || isFloat front || isMoment front then some rest
  else none

end GoCommands.Toml.Scalar
