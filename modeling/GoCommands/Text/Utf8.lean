import GoCommands.Text.Basic

/-!
# UTF-8

Bytes to text and back.  A sequence that is not well formed ends before the first byte that cannot
continue it; the lossy decoding puts U+FFFD for each such sequence, the strict one reports where the
first one starts.
-/

namespace GoCommands

abbrev Bytes := List UInt8

namespace Utf8

def encode (t : Text) : Bytes := t.flatMap String.utf8EncodeChar

/-- Result of reading one character: the character and its bytes, or the bytes of a broken sequence. -/
inductive Step where
  | char (c : Char) (width : Nat)
  | broken (width : Nat)

/-- Bytes that may follow the first byte of a sequence: their number, and the range of the first one. -/
def tailOf (b : UInt8) : Option (Nat × UInt8 × UInt8) :=
  if 0xC2 ≤ b && b ≤ 0xDF then some (1, 0x80, 0xBF)
  else if b == 0xE0 then some (2, 0xA0, 0xBF)
  else if b == 0xED then some (2, 0x80, 0x9F)
  else if 0xE1 ≤ b && b ≤ 0xEF then some (2, 0x80, 0xBF)
  else if b == 0xF0 then some (3, 0x90, 0xBF)
  else if 0xF1 ≤ b && b ≤ 0xF3 then some (3, 0x80, 0xBF)
  else if b == 0xF4 then some (3, 0x80, 0x8F)
  else none

/-- Reads the bytes that continue a sequence; `width` counts those already read. -/
def continueWith (width value : Nat) : (count : Nat) → (lo hi : UInt8) → Bytes → Step
  | 0, _, _, _ => .char (Char.ofNat value) width
  | _ + 1, _, _, [] => .broken width
  | count + 1, lo, hi, b :: bs =>
    if lo ≤ b && b ≤ hi then
      continueWith (width + 1) (value * 64 + (b.toNat - 0x80)) count 0x80 0xBF bs
    else .broken width

def step (b : UInt8) (bs : Bytes) : Step :=
  if b < 0x80 then .char (Char.ofNat b.toNat) 1
  else match tailOf b with
    | none => .broken 1
    | some (count, lo, hi) => continueWith 1 (b.toNat % (64 >>> count)) count lo hi bs

/-- Decodes at most `fuel` sequences, `bad` being what a broken one stands for. -/
def decodeWith (bad : Char) : (fuel : Nat) → Bytes → Text
  | 0, _ => []
  | _, [] => []
  | fuel + 1, b :: bs =>
    match step b bs with
    | .char c width => c :: decodeWith bad fuel (bs.drop (width - 1))
    | .broken width => bad :: decodeWith bad fuel (bs.drop (width - 1))

/-- Decoding that replaces each broken sequence by U+FFFD. -/
def decodeLossy (bs : Bytes) : Text := decodeWith (Char.ofNat 0xFFFD) bs.length bs

/-- Number of bytes before the first broken sequence, if there is one. -/
def firstBroken : (fuel : Nat) → (offset : Nat) → Bytes → Option Nat
  | 0, _, _ => none
  | _, _, [] => none
  | fuel + 1, offset, b :: bs =>
    match step b bs with
    | .char _ width => firstBroken fuel (offset + width) (bs.drop (width - 1))
    | .broken _ => some offset

/-- Text of well-formed bytes; otherwise the number of bytes before the first broken sequence. -/
def decode (bs : Bytes) : Except Nat Text :=
  match firstBroken bs.length 0 bs with
  | none => .ok (decodeLossy bs)
  | some offset => .error offset

/-- Line and column, both from one, of the place behind some bytes; columns count bytes. -/
def position (before : Bytes) : Nat × Nat :=
  (before.count 10 + 1, (before.reverse.takeWhile (· != 10)).length + 1)

end Utf8

end GoCommands
