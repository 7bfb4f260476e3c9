import GoCommands.Proofs.Text.Bytes
import Mathlib.Data.List.Find

/-! # Interpreted string literals

The language's own reading of what stands between the double quotes of a literal, byte by byte: a line break and
an escape that the language does not know make the literal invalid, and an escape by number may stand for any byte.
-/

namespace GoCommands.Go.Interpreted

open Utf8

/-- The letters of the escapes of one letter, and what they stand for. -/
def letters : List (Char × Char) :=
  [('a', '\x07'), ('b', '\x08'), ('f', '\x0c'), ('n', '\n'), ('r', '\r'), ('t', '\t'), ('v', '\x0b'),
    ('\\', '\\'), ('"', '"')]

def letter? (b : UInt8) : Option Char := (letters.find? fun entry => b == byte entry.1).map (·.2)

def digit? (b : UInt8) : Option Nat :=
  if byte '0' ≤ b && b ≤ byte '9' then some (b.toNat - '0'.toNat)
  else if byte 'a' ≤ b && b ≤ byte 'f' then some (b.toNat - 'a'.toNat + 10)
  else if byte 'A' ≤ b && b ≤ byte 'F' then some (b.toNat - 'A'.toNat + 10)
  else none

/-- The number that goes on with `count` digits behind the digits of `value`, and what follows it. -/
def number? (base : Nat) : (count value : Nat) → Bytes → Option (Nat × Bytes)
  | 0, value, bs => some (value, bs)
  | _ + 1, _, [] => none
  | count + 1, value, b :: bs =>
    (digit? b).bind fun d => if d < base then number? base count (value * base + d) bs else none

/-- What the escape behind a backslash stands for, and what follows it. -/
def escape? : Bytes → Option (Bytes × Bytes)
  | [] => none
  | b :: bs =>
    match letter? b with
    | some c => some ([byte c], bs)
    | none =>
      if b == byte 'x' then (number? 16 2 0 bs).map fun (n, rest) => ([UInt8.ofNat n], rest)
      else if b == byte 'u' then (number? 16 4 0 bs).bind codePoint?
      else if b == byte 'U' then (number? 16 8 0 bs).bind codePoint?
      else (number? 8 3 0 (b :: bs)).bind fun (n, rest) => if n < 256 then some ([UInt8.ofNat n], rest) else none
where
  codePoint? : Nat × Bytes → Option (Bytes × Bytes)
    | (n, rest) => if n.isValidChar then some (String.utf8EncodeChar (Char.ofNat n), rest) else none

theorem length_of_number? {base count value n : Nat} {bs rest : Bytes}
    (h : number? base count value bs = some (n, rest)) : rest.length + count = bs.length := by
  induction count generalizing value bs with
  | zero => cases h; rfl
  | succ count ih =>
    cases bs with
    | nil => cases h
    | cons b bs =>
      obtain ⟨d, -, hDigit⟩ := Option.bind_eq_some_iff.mp h
      split at hDigit
      · rw [List.length_cons, ← ih hDigit, Nat.add_assoc]
      · cases hDigit

theorem length_lt_of_escape? {bs value rest : Bytes} (h : escape? bs = some (value, rest)) :
    rest.length < bs.length := by
  cases bs with
  | nil => cases h
  | cons b bs =>
    have hPoint : ∀ count, (number? 16 count 0 bs).bind escape?.codePoint? = some (value, rest) →
        rest.length < (b :: bs).length := by
      intro count h
      obtain ⟨⟨n, behind⟩, hNumber, hPoint⟩ := Option.bind_eq_some_iff.mp h
      rw [escape?.codePoint?] at hPoint
      split at hPoint
      · cases hPoint
        have hLength := length_of_number? hNumber
        rw [List.length_cons]
        omega
      · cases hPoint
    rw [escape?] at h
    split at h
    · cases h
      exact Nat.lt_succ_self _
    split at h
    · obtain ⟨⟨n, behind⟩, hNumber, hRest⟩ := Option.map_eq_some_iff.mp h
      cases hRest
      have hLength := length_of_number? hNumber
      rw [List.length_cons]
      omega
    split at h
    · exact hPoint 4 h
    split at h
    · exact hPoint 8 h
    · obtain ⟨⟨n, behind⟩, hNumber, hRest⟩ := Option.bind_eq_some_iff.mp h
      have hLength := length_of_number? hNumber
      dsimp only at hRest
      split at hRest
      · cases hRest
        omega
      · cases hRest

/-- The value of a literal. A sequence of bytes that is no character stands for U+FFFD, byte by byte. -/
def value? : Bytes → Option Bytes
  | [] => some []
  | b :: bs =>
    if b == byte '\n' then none
    else if b == byte '\\' then
      match _hEscape : escape? bs with
      | none => none
      | some (value, rest) => (value? rest).map (value ++ ·)
    else match step b bs with
      | .char c width => (value? (bs.drop (width - 1))).map (String.utf8EncodeChar c ++ ·)
      | .broken _ => (value? bs).map (String.utf8EncodeChar '\uFFFD' ++ ·)
termination_by bs => bs.length
decreasing_by
  · have := length_lt_of_escape? _hEscape
    rw [List.length_cons]
    omega
  · rw [List.length_drop, List.length_cons]
    omega
  · exact Nat.lt_succ_self _

/-- What stands behind each backslash that begins an escape. -/
def escapes : Bytes → List Bytes
  | [] => []
  | b :: bs =>
    if b == byte '\\' then
      bs :: match bs with
        | [] => []
        | _ :: rest => escapes rest
    else escapes bs

/-- The literal has a value. -/
def Valid (raw : Bytes) : Prop := byte '\n' ∉ raw ∧ ∀ e ∈ escapes raw, (escape? e).isSome

instance : DecidablePred Valid := fun _ => inferInstanceAs (Decidable (_ ∧ _))

/-- Known escapes are replaced by what they stand for, everything else is kept as it is written. -/
def kept : Bytes → Bytes
  | [] => []
  | b :: bs =>
    if b == byte '\\' then
      match _hEscape : escape? bs with
      | none => b :: kept bs
      | some (value, rest) => value ++ kept rest
    else b :: kept bs
termination_by bs => bs.length
decreasing_by
  · exact Nat.lt_succ_self _
  · have := length_lt_of_escape? _hEscape
    rw [List.length_cons]
    omega
  · exact Nat.lt_succ_self _

/-- No escape is one by number, and a single quote has no backslash before it. -/
def Lettered (raw : Bytes) : Prop :=
  ∀ e ∈ escapes raw, e.head? ≠ some (byte '\'') ∧ ((escape? e).isSome → (e.head?.bind letter?).isSome)

instance : DecidablePred Lettered := fun _ => inferInstanceAs (Decidable (∀ _ ∈ _, _))

/-! ## Readings of encoded text -/

theorem backslash_not_mem {c : Char} (h : c ≠ '\\') : ∀ b ∈ String.utf8EncodeChar c, (b == byte '\\') = false := by
  intro b hb
  rw [beq_byte (by decide) hb, beq_eq_false_iff_ne]
  exact h

theorem kept_append {bs : Bytes} (h : ∀ b ∈ bs, (b == byte '\\') = false) (rest : Bytes) :
    kept (bs ++ rest) = bs ++ kept rest := by
  induction bs with
  | nil => rfl
  | cons b bs ih =>
    rw [List.forall_mem_cons] at h
    rw [List.cons_append, kept, h.1, ih h.2]
    rfl

theorem escapes_append {bs : Bytes} (h : ∀ b ∈ bs, (b == byte '\\') = false) (rest : Bytes) :
    escapes (bs ++ rest) = escapes rest := by
  induction bs with
  | nil => rfl
  | cons b bs ih =>
    rw [List.forall_mem_cons] at h
    rw [List.cons_append, escapes.eq_def]
    simp only [h.1, Bool.false_eq_true, if_false, ih h.2]

theorem escapes_cons {c : Char} (h : c ≠ '\\') (t : Text) : escapes (encode (c :: t)) = escapes (encode t) := by
  rw [encode_cons, escapes_append (backslash_not_mem h)]

/-- The first byte behind a backslash is part of its escape, and no other byte of this character is a backslash. -/
theorem escapes_backslash (c : Char) (t : Text) :
    escapes (encode ('\\' :: c :: t)) = encode (c :: t) :: escapes (encode t) := by
  obtain ⟨b, tail, hBytes, hTail⟩ := exists_tail c
  have hRest := escapes_append (fun x hx => hTail x hx '\\' (by decide)) (encode t)
  rw [encode_cons_ascii (by decide), encode_cons, hBytes, List.cons_append, escapes.eq_def]
  simp only [beq_self_eq_true, if_true, hRest]

theorem value?_cons {c : Char} (hBreak : c ≠ '\n') (hSlash : c ≠ '\\') (t : Text) :
    value? (encode (c :: t)) = (value? (encode t)).map (String.utf8EncodeChar c ++ ·) := by
  obtain ⟨b, tail, hBytes, hStep⟩ := step_encodeChar c (encode t)
  have hMem : b ∈ String.utf8EncodeChar c := by
    rw [hBytes]
    exact List.mem_cons_self
  have hNewline : (b == byte '\n') = false := by
    rw [beq_byte (by decide) hMem, beq_eq_false_iff_ne]
    exact hBreak
  rw [encode_cons, hBytes, List.cons_append, value?, hNewline, backslash_not_mem hSlash b hMem, hStep]
  simp [hBytes]

/-- What a character stands for behind a backslash, if it is the letter of an escape. -/
def escaped? (c : Char) : Option Char := (letters.find? fun entry => c == entry.1).map (·.2)

theorem letter?_eq {c : Char} {b : UInt8} (hb : b ∈ String.utf8EncodeChar c) : letter? b = escaped? c := by
  have hSmall : ∀ entry ∈ letters, entry.1.toNat < 128 := by decide
  have hSame : ∀ entry ∈ letters, (b == byte entry.1) = (c == entry.1) :=
    fun entry hEntry => beq_byte (hSmall entry hEntry) hb
  exact congrArg (Option.map (·.2)) (List.find?_congr hSame)

theorem exists_head (c : Char) (t : Text) : ∃ b ∈ String.utf8EncodeChar c, (encode (c :: t)).head? = some b := by
  obtain ⟨b, tail, hBytes⟩ := List.exists_cons_of_ne_nil (String.utf8EncodeChar_ne_nil (c := c))
  refine ⟨b, ?_, ?_⟩
  · rw [hBytes]
    exact List.mem_cons_self
  · rw [encode_cons, hBytes]
    rfl

theorem ascii_of_escaped? {c d : Char} (h : escaped? c = some d) : c.toNat < 128 ∧ d.toNat < 128 := by
  have hSmall : ∀ entry ∈ letters, entry.1.toNat < 128 ∧ entry.2.toNat < 128 := by decide
  obtain ⟨entry, hFind, rfl⟩ := Option.map_eq_some_iff.mp h
  have hLetter := List.find?_some hFind
  rw [beq_iff_eq] at hLetter
  rw [hLetter]
  exact hSmall entry (List.mem_of_find?_eq_some hFind)

theorem escape?_of_escaped? {c d : Char} (h : escaped? c = some d) (t : Text) :
    escape? (encode (c :: t)) = some ([byte d], encode t) := by
  obtain ⟨hSmall, -⟩ := ascii_of_escaped? h
  have hByte : byte c ∈ String.utf8EncodeChar c := by
    rw [encodeChar_ascii hSmall]
    exact List.mem_singleton_self _
  have hLetter : letter? (byte c) = some d := (letter?_eq hByte).trans h
  rw [encode_cons_ascii hSmall, escape?, hLetter]

theorem lettered_cons {c : Char} (h : c ≠ '\\') (t : Text) : Lettered (encode (c :: t)) ↔ Lettered (encode t) := by
  rw [Lettered, escapes_cons h, Lettered]

theorem lettered_backslash (c : Char) (t : Text) : Lettered (encode ('\\' :: c :: t)) ↔
    (c ≠ '\'' ∧ ((escape? (encode (c :: t))).isSome → (escaped? c).isSome)) ∧ Lettered (encode t) := by
  obtain ⟨b, hb, hHead⟩ := exists_head c t
  have hQuote : b = byte '\'' ↔ c = '\'' := by
    rw [← beq_iff_eq, beq_byte (by decide) hb, beq_iff_eq]
  rw [Lettered, escapes_backslash, List.forall_mem_cons, hHead, Option.bind_some, letter?_eq hb, ne_eq,
    Option.some.injEq, hQuote]
  rfl

theorem newline_mem_encode {t : Text} : byte '\n' ∈ encode t ↔ '\n' ∈ t := by
  rw [encode, List.mem_flatMap]
  constructor
  · rintro ⟨c, hMem, hByte⟩
    have hSame := beq_byte (a := '\n') (by decide) hByte
    rw [beq_self_eq_true, eq_comm, beq_iff_eq] at hSame
    rwa [← hSame]
  · intro hMem
    exact ⟨'\n', hMem, by decide⟩

theorem valid_cons {c : Char} (h : c ≠ '\\') (t : Text) :
    Valid (encode (c :: t)) ↔ c ≠ '\n' ∧ Valid (encode t) := by
  rw [Valid, Valid, newline_mem_encode, newline_mem_encode, escapes_cons h, List.mem_cons, not_or, and_assoc,
    ne_comm]

theorem valid_backslash (c : Char) (t : Text) : Valid (encode ('\\' :: c :: t)) ↔
    c ≠ '\n' ∧ (escape? (encode (c :: t))).isSome ∧ Valid (encode t) := by
  have hSlash : '\n' ≠ '\\' := by decide
  rw [Valid, Valid, newline_mem_encode, newline_mem_encode, escapes_backslash, List.forall_mem_cons,
    List.mem_cons, List.mem_cons]
  grind

theorem value?_backslash (t : Text) : value? (encode ('\\' :: t)) =
    (escape? (encode t)).bind fun (value, rest) => (value? rest).map (value ++ ·) := by
  rw [encode_cons_ascii (by decide), value?, if_neg (by decide), if_pos (by decide)]
  split <;> simp [*]

theorem kept_backslash_of_none {t : Text} (h : escape? (encode t) = none) :
    kept (encode ('\\' :: t)) = byte '\\' :: kept (encode t) := by
  rw [encode_cons_ascii (by decide), kept, if_pos (by decide)]
  split
  · rfl
  · rename_i hSome
    rw [h] at hSome
    cases hSome

theorem kept_backslash_of_some {t : Text} {value rest : Bytes} (h : escape? (encode t) = some (value, rest)) :
    kept (encode ('\\' :: t)) = value ++ kept rest := by
  rw [encode_cons_ascii (by decide), kept, if_pos (by decide)]
  split
  · rename_i hNone
    rw [h] at hNone
    cases hNone
  · rename_i hSome
    rw [h] at hSome
    cases hSome
    rfl

theorem kept_cons {c : Char} (h : c ≠ '\\') (t : Text) :
    kept (encode (c :: t)) = String.utf8EncodeChar c ++ kept (encode t) := by
  rw [encode_cons, kept_append (backslash_not_mem h)]

/-- Texts are read from the left, a backslash together with the character behind it. -/
theorem escaped_induction {motive : Text → Prop} (nil : motive []) (last : motive ['\\'])
    (escape : ∀ c t, motive t → motive ('\\' :: c :: t)) (plain : ∀ c t, c ≠ '\\' → motive t → motive (c :: t)) :
    ∀ t, motive t
  | [] => nil
  | [c] => by
    by_cases hSlash : c = '\\'
    · rw [hSlash]
      exact last
    · exact plain c [] hSlash nil
  | c :: d :: t => by
    by_cases hSlash : c = '\\'
    · rw [hSlash]
      exact escape d t (escaped_induction nil last escape plain t)
    · exact plain c (d :: t) hSlash (escaped_induction nil last escape plain (d :: t))

/-- Where no escape is one by number, a literal that has a value has the one that keeps what it does not know. -/
theorem value?_eq (t : Text) (hLettered : Lettered (encode t)) :
    value? (encode t) = if Valid (encode t) then some (kept (encode t)) else none := by
  induction t using escaped_induction with
  | nil => simp [encode, value?, Valid, escapes, kept]
  | last =>
    have hBytes : encode ['\\'] = [byte '\\'] := rfl
    simp [hBytes, value?, Valid, escapes, escape?]
  | escape c t ih =>
    rw [lettered_backslash] at hLettered
    obtain ⟨⟨-, hEscape⟩, hRest⟩ := hLettered
    have hValue := ih hRest
    simp only [value?_backslash, valid_backslash]
    cases hKnown : escape? (encode (c :: t)) with
    | none => simp
    | some found =>
      rw [hKnown] at hEscape
      obtain ⟨d, hLetter⟩ := Option.isSome_iff_exists.mp (hEscape rfl)
      have hBreak : c ≠ '\n' := by
        rintro rfl
        cases hLetter
      rw [escape?_of_escaped? hLetter] at hKnown
      cases hKnown
      rw [Option.bind_some, hValue, kept_backslash_of_some (escape?_of_escaped? hLetter t)]
      simp only [hBreak, ne_eq, not_false_eq_true, Option.isSome_some, true_and]
      split <;> rfl
  | plain c t hSlash ih =>
    rw [lettered_cons hSlash] at hLettered
    have hValue := ih hLettered
    simp only [valid_cons hSlash]
    by_cases hBreak : c = '\n'
    · rw [hBreak, encode_cons_ascii (by decide), value?, if_pos (by decide)]
      simp
    · rw [value?_cons hBreak hSlash, hValue, kept_cons hSlash]
      simp only [hBreak, ne_eq, not_false_eq_true, true_and]
      split <;> rfl

end GoCommands.Go.Interpreted
