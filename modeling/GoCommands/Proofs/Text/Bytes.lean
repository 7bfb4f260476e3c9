import GoCommands.Proofs.Text.Classes
import GoCommands.Proofs.Text.Utf8

/-! # Texts seen as bytes

A reader of bytes that only looks for characters below U+0080 does on the encoding of a text what a reader of
characters does on the text: such a character is one byte, and no byte of another character is below 0x80.
-/

namespace GoCommands.Utf8

/-- The byte of a character below U+0080. -/
def byte (c : Char) : UInt8 := UInt8.ofNat c.toNat

theorem encodeChar_ascii {c : Char} (h : c.toNat < 128) : String.utf8EncodeChar c = [byte c] := by
  rw [String.utf8EncodeChar, if_pos (show c.val.toNat ≤ 0x7F from Nat.le_of_lt_succ h)]
  rfl

theorem toNat_byte {c : Char} (h : c.toNat < 128) : (byte c).toNat = c.toNat :=
  UInt8.toNat_ofNat_of_lt' (Nat.lt_trans h (by decide))

theorem byte_inj {c d : Char} (hc : c.toNat < 128) (hd : d.toNat < 128) : byte c = byte d ↔ c = d := by
  rw [← UInt8.toNat_inj, toNat_byte hc, toNat_byte hd, Char.toNat_inj]

theorem encodeChar_wide {c : Char} (h : 128 ≤ c.toNat) : ∀ b ∈ String.utf8EncodeChar c, 128 ≤ b.toNat := by
  have hLarge : ¬ c.val.toNat ≤ 0x7F := Nat.not_le.mpr h
  have hHigh : ∀ n, n < 256 → 128 ≤ n → 128 ≤ (UInt8.ofNat n).toNat := by
    intro n hByte hLow
    rwa [UInt8.toNat_ofNat_of_lt' hByte]
  have hNil : ∀ b ∈ ([] : Bytes), 128 ≤ b.toNat := List.forall_mem_nil _
  rw [String.utf8EncodeChar, if_neg hLarge]
  split
  · simp only [List.forall_mem_cons]
    exact ⟨hHigh _ (by omega) (by omega), hHigh _ (by omega) (by omega), hNil⟩
  · split
    · simp only [List.forall_mem_cons]
      exact ⟨hHigh _ (by omega) (by omega), hHigh _ (by omega) (by omega), hHigh _ (by omega) (by omega), hNil⟩
    · simp only [List.forall_mem_cons]
      exact ⟨hHigh _ (by omega) (by omega), hHigh _ (by omega) (by omega), hHigh _ (by omega) (by omega),
        hHigh _ (by omega) (by omega), hNil⟩

theorem encode_cons (c : Char) (t : Text) : encode (c :: t) = String.utf8EncodeChar c ++ encode t :=
  List.flatMap_cons

theorem encode_append (s t : Text) : encode (s ++ t) = encode s ++ encode t := List.flatMap_append

theorem encode_cons_ascii {c : Char} (h : c.toNat < 128) (t : Text) : encode (c :: t) = byte c :: encode t := by
  rw [encode_cons, encodeChar_ascii h]
  rfl

theorem encode_injective : Function.Injective encode := by
  intro s t h
  have hDecode := decode_encode s
  rw [h, decode_encode t] at hDecode
  exact (Except.ok.inj hDecode).symm

theorem encode_eq_nil_iff {t : Text} : encode t = [] ↔ t = [] :=
  ⟨fun h => encode_injective h, fun h => by rw [h]; rfl⟩

theorem beq_byte {a : Char} (ha : a.toNat < 128) {c : Char} {b : UInt8} (hb : b ∈ String.utf8EncodeChar c) :
    (b == byte a) = (c == a) := by
  rw [Bool.eq_iff_iff, beq_iff_eq, beq_iff_eq]
  rcases Nat.lt_or_ge c.toNat 128 with hSmall | hLarge
  · rw [encodeChar_ascii hSmall, List.mem_singleton] at hb
    rw [hb, byte_inj hSmall ha]
  · have hByte := encodeChar_wide hLarge b hb
    refine iff_of_false ?_ ?_
    · rintro rfl
      rw [toNat_byte ha] at hByte
      omega
    · rintro rfl
      omega

/-- No byte of a character but the first is the byte of another character. -/
theorem exists_tail (c : Char) : ∃ b tail, String.utf8EncodeChar c = b :: tail ∧
    ∀ x ∈ tail, ∀ a : Char, a.toNat < 128 → (x == byte a) = false := by
  rcases Nat.lt_or_ge c.toNat 128 with hSmall | hLarge
  · exact ⟨byte c, [], encodeChar_ascii hSmall, nofun⟩
  · obtain ⟨b, tail, hBytes⟩ := List.exists_cons_of_ne_nil (String.utf8EncodeChar_ne_nil (c := c))
    refine ⟨b, tail, hBytes, ?_⟩
    intro x hx a ha
    rw [beq_byte (c := c) ha (by rw [hBytes]; exact List.mem_cons_of_mem b hx), beq_eq_false_iff_ne]
    rintro rfl
    omega

theorem exists_of_encode_cons {a : Char} (ha : a.toNat < 128) {t : Text} {bs : Bytes}
    (h : encode t = byte a :: bs) : ∃ rest, t = a :: rest ∧ encode rest = bs := by
  cases t with
  | nil => cases h
  | cons c rest =>
    obtain ⟨b, tail, hBytes, -⟩ := exists_tail c
    rw [encode_cons, hBytes, List.cons_append, List.cons.injEq] at h
    have hMem : b ∈ String.utf8EncodeChar c := by
      rw [hBytes]
      exact List.mem_cons_self
    have hSame := beq_byte ha hMem
    rw [beq_iff_eq.mpr h.1, eq_comm, beq_iff_eq] at hSame
    subst hSame
    rw [encodeChar_ascii ha] at hBytes
    cases hBytes
    exact ⟨rest, rfl, h.2⟩

/-- The bytes of a character satisfy `p` exactly if the character satisfies `q`. -/
def Follows (p : UInt8 → Bool) (q : Char → Bool) : Prop := ∀ c, ∀ b ∈ String.utf8EncodeChar c, p b = q c

namespace Follows

variable {p : UInt8 → Bool} {q : Char → Bool}

/-- It is enough to look at the characters below U+0080 if the others are treated alike. -/
theorem of_ascii (wide : Bool) (hAscii : ∀ n < 128, p (UInt8.ofNat n) = q (Char.ofNat n))
    (hBytes : ∀ b : UInt8, 128 ≤ b.toNat → p b = wide) (hChars : ∀ c : Char, 128 ≤ c.toNat → q c = wide) :
    Follows p q := by
  intro c b hb
  rcases Nat.lt_or_ge c.toNat 128 with hSmall | hLarge
  · rw [encodeChar_ascii hSmall, List.mem_singleton] at hb
    rw [hb, byte, hAscii _ hSmall, Char.ofNat_toNat]
  · rw [hBytes b (encodeChar_wide hLarge b hb), hChars c hLarge]

theorem takeWhile_encode (h : Follows p q) (t : Text) : (encode t).takeWhile p = encode (t.takeWhile q) := by
  induction t with
  | nil => rfl
  | cons c cs ih =>
    obtain ⟨b, tail, hBytes⟩ := List.exists_cons_of_ne_nil (String.utf8EncodeChar_ne_nil (c := c))
    have hAll := h c
    rw [encode_cons, List.takeWhile_cons]
    cases hc : q c with
    | true =>
      rw [if_pos rfl, encode_cons, List.takeWhile_append_of_pos (fun x hx => (hAll x hx).trans hc), ih]
    | false =>
      rw [hBytes] at hAll ⊢
      have hb : p b = false := (hAll b List.mem_cons_self).trans hc
      simp [hb, encode]

theorem dropWhile_encode (h : Follows p q) (t : Text) : (encode t).dropWhile p = encode (t.dropWhile q) := by
  have hSplit : (encode t).takeWhile p ++ (encode t).dropWhile p =
      encode (t.takeWhile q) ++ encode (t.dropWhile q) := by
    rw [List.takeWhile_append_dropWhile, ← encode_append, List.takeWhile_append_dropWhile]
  rw [h.takeWhile_encode] at hSplit
  exact List.append_cancel_left hSplit

end Follows

end GoCommands.Utf8
