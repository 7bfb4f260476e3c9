import GoCommands.Proofs.StructTag.Unescape

/-! # Lookup of a struct tag at run time

The lookup that the language's own reflection makes, byte by byte, beside the one of the field annotations. Both find
the same pair in every tag. They differ on a value that is no valid literal, which reflection does not report.
-/

namespace GoCommands.StructTag

open Utf8 Go.Interpreted

/-- What stands behind the value is shorter than the tag, of characters or of bytes. -/
theorem lt_length_of_dropWhile {α : Type} {p q : α → Bool} {tag rest : List α} {a b : α} {n : Nat}
    (hKey : (tag.dropWhile p).dropWhile q = a :: b :: rest) (h : n < rest.length) : n < tag.length := by
  have hTag := (List.dropWhile_suffix p (l := tag)).length_le
  have hBehind := (List.dropWhile_suffix q (l := tag.dropWhile p)).length_le
  rw [hKey, List.length_cons, List.length_cons] at hBehind
  omega

theorem length_lt_of_quoted? {t value behind : Text} (h : quoted? t = some (value, behind)) :
    behind.length < t.length := by
  fun_induction quoted? t generalizing value behind with
  | case1 => cases h
  | case2 rest =>
    cases h
    exact Nat.lt_succ_self _
  | case3 c rest ih =>
    obtain ⟨⟨inner, last⟩, hRest, hSame⟩ := Option.map_eq_some_iff.mp h
    cases hSame
    exact Nat.lt_succ_of_lt (Nat.lt_succ_of_lt (ih hRest))
  | case4 c rest hQuote hEscape ih =>
    obtain ⟨⟨inner, last⟩, hRest, hSame⟩ := Option.map_eq_some_iff.mp h
    cases hSame
    exact Nat.lt_succ_of_lt (ih hRest)

theorem length_lt_of_pair? {tag rest : Text} {pair : Text × Text} (h : pair? tag = some (pair, rest)) :
    rest.length < tag.length := by
  unfold pair? at h
  dsimp only at h
  split at h
  · cases h
  split at h
  · rename_i quoted hKey
    obtain ⟨⟨value, last⟩, hQuoted, hSame⟩ := Option.map_eq_some_iff.mp h
    cases hSame
    exact lt_length_of_dropWhile hKey (length_lt_of_quoted? hQuoted)
  · cases h

namespace Reflected

/-- Bytes of a key: no space, control character, colon or quote. -/
def isKeyByte (b : UInt8) : Bool := byte ' ' < b && b != byte ':' && b != byte '"' && b != 0x7F

/-- What stands before the closing quote, which is the first that no backslash escapes, and what follows it. -/
def closing? : Bytes → Option (Bytes × Bytes)
  | [] => none
  | b :: bs =>
    if b == byte '"' then some ([], bs)
    else if b == byte '\\' then
      match bs with
      | [] => none
      | c :: rest => (closing? rest).map fun (value, behind) => (b :: c :: value, behind)
    else (closing? bs).map fun (value, behind) => (b :: value, behind)

/-- The first pair of a tag, with its value still escaped, and what follows. -/
def pair? (tag : Bytes) : Option ((Bytes × Bytes) × Bytes) :=
  let tag := tag.dropWhile (· == byte ' ')
  let key := tag.takeWhile isKeyByte
  if key.isEmpty then none
  else match tag.dropWhile isKeyByte with
    | colon :: quote :: rest =>
      if colon == byte ':' && quote == byte '"' then
        (closing? rest).map fun (value, behind) => ((key, value), behind)
      else none
    | _ => none

theorem length_lt_of_closing? {bs value behind : Bytes} (h : closing? bs = some (value, behind)) :
    behind.length < bs.length := by
  fun_induction closing? bs generalizing value behind with
  | case1 => cases h
  | case2 b bs hQuote =>
    cases h
    exact Nat.lt_succ_self _
  | case3 => cases h
  | case4 b hQuote hSlash c rest ih =>
    obtain ⟨⟨inner, behind'⟩, hRest, hSame⟩ := Option.map_eq_some_iff.mp h
    cases hSame
    exact Nat.lt_succ_of_lt (Nat.lt_succ_of_lt (ih hRest))
  | case5 b bs hQuote hSlash ih =>
    obtain ⟨⟨inner, behind'⟩, hRest, hSame⟩ := Option.map_eq_some_iff.mp h
    cases hSame
    exact Nat.lt_succ_of_lt (ih hRest)

theorem length_lt_of_pair? {tag rest : Bytes} {pair : Bytes × Bytes} (h : pair? tag = some (pair, rest)) :
    rest.length < tag.length := by
  unfold pair? at h
  dsimp only at h
  split at h
  · cases h
  split at h
  · rename_i colon quote behind hKey
    split at h
    · obtain ⟨⟨value, behind'⟩, hClosing, hSame⟩ := Option.map_eq_some_iff.mp h
      cases hSame
      exact lt_length_of_dropWhile hKey (length_lt_of_closing? hClosing)
    · cases h
  · cases h

/-- The value of the first pair with the key, still escaped. The search ends at the first place that is malformed. -/
def raw? (tag key : Bytes) : Option Bytes :=
  match _hPair : pair? tag with
  | none => none
  | some ((name, value), rest) => if name == key then some value else raw? rest key
termination_by tag.length
decreasing_by exact length_lt_of_pair? _hPair

def lookup (tag key : Bytes) : Option Bytes := (raw? tag key).bind value?

/-! ## The lookup on encoded text -/

theorem follows_isKeyByte : Follows isKeyByte isKeyChar := by
  refine Follows.of_ascii true (by decide) ?_ ?_
  · intro b hb
    have hLess : byte ' ' < b := UInt8.lt_iff_toNat_lt.mpr (Nat.lt_of_lt_of_le (by decide) hb)
    have hOther : ∀ a : UInt8, a.toNat < 128 → b ≠ a := by
      rintro a ha rfl
      omega
    simp [isKeyByte, hLess, hOther (byte ':') (by decide), hOther (byte '"') (by decide), hOther 0x7F (by decide)]
  · intro c hc
    have hLess : ' ' < c := Nat.lt_of_lt_of_le (show ' '.toNat < 128 by decide) hc
    have hOther : ∀ a : Char, a.toNat < 128 → c ≠ a := by
      rintro a ha rfl
      omega
    simp [isKeyChar, hLess, hOther ':' (by decide), hOther '"' (by decide), hOther '\x7f' (by decide)]

theorem closing?_append {bs : Bytes} (hQuote : ∀ b ∈ bs, (b == byte '"') = false)
    (hSlash : ∀ b ∈ bs, (b == byte '\\') = false) (rest : Bytes) :
    closing? (bs ++ rest) = (closing? rest).map (Prod.map (bs ++ ·) id) := by
  induction bs with
  | nil => exact Option.map_id'.symm
  | cons b bs ih =>
    rw [List.forall_mem_cons] at hQuote hSlash
    rw [List.cons_append, closing?.eq_def]
    simp only [hQuote.1, hSlash.1, ih hQuote.2 hSlash.2, Bool.false_eq_true, if_false]
    cases closing? rest <;> rfl

theorem closing?_encode (t : Text) : closing? (encode t) = (quoted? t).map (Prod.map encode encode) := by
  induction t using escaped_induction with
  | nil => rfl
  | last => rfl
  | escape c t ih =>
    obtain ⟨b, tail, hBytes, hTail⟩ := exists_tail c
    have hRest := closing?_append (fun x hx => hTail x hx '"' (by decide)) (fun x hx => hTail x hx '\\' (by decide))
      (encode t)
    have hSlash : (byte '\\' == byte '"') = false := by decide
    rw [encode_cons_ascii (by decide), encode_cons, hBytes, List.cons_append, closing?.eq_def]
    simp only [hSlash, beq_self_eq_true, if_true, Bool.false_eq_true, if_false, hRest, ih, quoted?]
    cases quoted? t with
    | none => rfl
    | some found => simp [encode_cons, hBytes, encodeChar_ascii (c := '\\')]
  | plain c t hSlash ih =>
    by_cases hQuote : c = '"'
    · rw [hQuote, encode_cons_ascii (by decide), closing?.eq_def, quoted?]
      rfl
    · have hByte : ∀ b ∈ String.utf8EncodeChar c, (b == byte '"') = false := by
        intro b hb
        rw [beq_byte (by decide) hb, beq_eq_false_iff_ne]
        exact hQuote
      have hStep : quoted? (c :: t) = (quoted? t).map fun r => (c :: r.1, r.2) := by
        rw [quoted?]
        · exact hQuote
        · rintro d rest rfl
          exact absurd rfl hSlash
      rw [encode_cons, closing?_append hByte (backslash_not_mem hSlash), ih, hStep]
      cases quoted? t <;> rfl

theorem pair?_encode (tag : Text) :
    pair? (encode tag) = (StructTag.pair? tag).map (Prod.map (Prod.map encode encode) encode) := by
  have hSpace : Follows (· == byte ' ') (· == ' ') := fun c b hb => beq_byte (by decide) hb
  unfold pair? StructTag.pair?
  simp only [hSpace.dropWhile_encode, follows_isKeyByte.takeWhile_encode, follows_isKeyByte.dropWhile_encode]
  have hEmpty : ∀ t, (encode t).isEmpty = t.isEmpty := by
    intro t
    rw [Bool.eq_iff_iff, List.isEmpty_iff, List.isEmpty_iff, encode_eq_nil_iff]
  rw [hEmpty]
  generalize (tag.dropWhile (· == ' ')).dropWhile isKeyChar = opened
  split
  · rfl
  split
  · rename_i colon quote behind hOpened
    split
    · rename_i hMarks
      rw [Bool.and_eq_true, beq_iff_eq, beq_iff_eq] at hMarks
      rw [hMarks.1, hMarks.2] at hOpened
      obtain ⟨inner, rfl, hInner⟩ := exists_of_encode_cons (by decide) hOpened
      obtain ⟨rest, rfl, rfl⟩ := exists_of_encode_cons (by decide) hInner
      simp only [closing?_encode]
      cases quoted? rest <;> rfl
    · rename_i hMarks
      split
      · rename_i rest
        rw [encode_cons_ascii (by decide), encode_cons_ascii (by decide)] at hOpened
        cases hOpened
        exact absurd rfl hMarks
      · rfl
  · rename_i hOpened
    split
    · rename_i rest
      rw [encode_cons_ascii (by decide), encode_cons_ascii (by decide)] at hOpened
      exact absurd rfl (hOpened _ _ _)
    · rfl

theorem raw?_eq (tag key : Bytes) : raw? tag key =
    (pair? tag).bind fun (pair, rest) => if pair.1 == key then some pair.2 else raw? rest key := by
  rw [raw?]
  split <;> simp [*]

theorem raw?_encode_within {fuel : Nat} {tag : Text} (hFuel : tag.length ≤ fuel) (key : Text) :
    raw? (encode tag) (encode key) = ((pairsWithin fuel tag).find? (·.1 == key)).map (encode ·.2) := by
  induction fuel generalizing tag with
  | zero =>
    rw [List.length_eq_zero_iff.mp (Nat.le_zero.mp hFuel), raw?_eq]
    rfl
  | succ fuel ih =>
    rw [raw?_eq, pair?_encode, pairsWithin]
    cases hPair : StructTag.pair? tag with
    | none => rfl
    | some found =>
      obtain ⟨⟨name, value⟩, rest⟩ := found
      have hRest := ih (Nat.le_of_lt_succ (Nat.lt_of_lt_of_le (StructTag.length_lt_of_pair? hPair) hFuel))
      have hName : (encode name == encode key) = (name == key) := by
        rw [Bool.eq_iff_iff, beq_iff_eq, beq_iff_eq, encode_injective.eq_iff]
      simp only [Option.map_some, Option.bind_some, Prod.map, hName, List.find?_cons, hRest]
      cases name == key <;> rfl

/-- Both lookups find the same pair in every tag. -/
theorem raw?_encode (tag key : Text) :
    raw? (encode tag) (encode key) = ((pairs tag).find? (·.1 == key)).map (encode ·.2) :=
  raw?_encode_within (Nat.le_refl _) key

end Reflected

/-- The lookup finds a pair exactly if reflection does. Where no escape of the value is one by number or of a single
quote, it replaces the escapes that the language knows and keeps everything else, and reflection reports the same value
if it is a valid literal and none otherwise. -/
theorem lookup_reflected (tag key : Text) :
    (lookup tag key = none ↔ Reflected.raw? (encode tag) (encode key) = none) ∧
    ∀ raw, Reflected.raw? (encode tag) (encode key) = some raw → Lettered raw →
      (lookup tag key).map encode = some (kept raw) ∧
      Reflected.lookup (encode tag) (encode key) = if Valid raw then (lookup tag key).map encode else none := by
  constructor
  · rw [Reflected.raw?_encode, lookup, Option.map_eq_none_iff, Option.map_eq_none_iff]
  · intro raw hRaw hLettered
    have hFound := hRaw
    rw [Reflected.raw?_encode] at hFound
    obtain ⟨pair, hPair, rfl⟩ := Option.map_eq_some_iff.mp hFound
    have hValue : (lookup tag key).map encode = some (kept (encode pair.2)) := by
      rw [lookup, hPair, Option.map_some, Option.map_some, encode_unescape _ hLettered]
    refine ⟨hValue, ?_⟩
    rw [hValue, Reflected.lookup, hRaw, Option.bind_some, value?_eq _ hLettered]

def escapedTag : Text := "json:\"a,b\" gantry:\"say \\\"hi\\\"\\t\"".toList

theorem lookup_reflected_escapedTag :
    Reflected.raw? (encode escapedTag) (encode "gantry".toList) = some (encode "say \\\"hi\\\"\\t".toList) ∧
    Lettered (encode "say \\\"hi\\\"\\t".toList) ∧
    Reflected.lookup (encode escapedTag) (encode "gantry".toList) = some (encode "say \"hi\"\t".toList) := by
  have hRaw : Reflected.raw? (encode escapedTag) (encode "gantry".toList) =
      some (encode "say \\\"hi\\\"\\t".toList) := by
    rw [Reflected.raw?_encode]
    rfl
  have hLettered : Lettered (encode "say \\\"hi\\\"\\t".toList) := by decide +kernel
  obtain ⟨-, hSame⟩ := (lookup_reflected escapedTag "gantry".toList).2 _ hRaw hLettered
  refine ⟨hRaw, hLettered, ?_⟩
  rw [hSame, if_pos (by decide +kernel)]
  rfl

/-- An unknown escape stands in the value as it is written, and reflection does not report this value. -/
theorem lookup_unknown_escape :
    lookup "k:\"keep \\q\"".toList ['k'] = some "keep \\q".toList ∧
    Reflected.lookup (encode "k:\"keep \\q\"".toList) (encode ['k']) = none := by
  refine ⟨by decide, ?_⟩
  rw [Reflected.lookup, Reflected.raw?_encode]
  show (some (encode "keep \\q".toList)).bind value? = none
  rw [Option.bind_some, value?_eq _ (by decide +kernel), if_neg (by decide +kernel)]

end GoCommands.StructTag
