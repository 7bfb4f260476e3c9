import GoCommands.Text.Utf8

/-! # Decoding what was encoded

The bytes of a character are read back as this character and nothing else, so any text is decoded from its
encoding. Bytes that are read as a character are the bytes of this character, so nothing else is decoded.
-/

namespace GoCommands.Utf8

/-- The table of first bytes by number. -/
theorem tailOf_ofNat : ∀ n < 256, tailOf (UInt8.ofNat n) =
    if 0xC2 ≤ n ∧ n ≤ 0xDF then some (1, 0x80, 0xBF)
    else if n = 0xE0 then some (2, 0xA0, 0xBF)
    else if n = 0xED then some (2, 0x80, 0x9F)
    else if 0xE1 ≤ n ∧ n ≤ 0xEF then some (2, 0x80, 0xBF)
    else if n = 0xF0 then some (3, 0x90, 0xBF)
    else if 0xF1 ≤ n ∧ n ≤ 0xF3 then some (3, 0x80, 0xBF)
    else if n = 0xF4 then some (3, 0x80, 0x8F)
    else none := by
  decide +kernel

theorem continueWith_cons {width value count : Nat} {lo hi : UInt8} {n : Nat} {bs : Bytes} (hByte : n < 256)
    (hLow : lo.toNat ≤ n) (hHigh : n ≤ hi.toNat) :
    continueWith width value (count + 1) lo hi (UInt8.ofNat n :: bs) =
      continueWith (width + 1) (value * 64 + (n - 0x80)) count 0x80 0xBF bs := by
  have hNat : (UInt8.ofNat n).toNat = n := UInt8.toNat_ofNat_of_lt' hByte
  rw [continueWith, if_pos]
  · rw [hNat]
  · simp only [Bool.and_eq_true, decide_eq_true_eq, UInt8.le_iff_toNat_le, hNat]
    exact ⟨hLow, hHigh⟩

theorem step_of_tailOf {n count : Nat} {lo hi : UInt8} (hByte : n < 256) (hLarge : 0x80 ≤ n)
    (hTail : tailOf (UInt8.ofNat n) = some (count, lo, hi)) (bs : Bytes) :
    step (UInt8.ofNat n) bs = continueWith 1 (n % (64 >>> count)) count lo hi bs := by
  have hNat : (UInt8.ofNat n).toNat = n := UInt8.toNat_ofNat_of_lt' hByte
  rw [step, if_neg, hTail]
  · simp only [hNat]
  · rw [UInt8.lt_iff_toNat_lt, hNat]
    exact Nat.not_lt.mpr hLarge

theorem step_two {v : Nat} (hLow : 0x80 ≤ v) (hHigh : v ≤ 0x7FF) (bs : Bytes) :
    step (UInt8.ofNat (v / 64 % 0x20 + 0xC0)) (UInt8.ofNat (v % 0x40 + 0x80) :: bs) = .char (Char.ofNat v) 2 := by
  have hTail : tailOf (UInt8.ofNat (v / 64 % 0x20 + 0xC0)) = some (1, 0x80, 0xBF) := by
    rw [tailOf_ofNat _ (by omega), if_pos (by omega)]
  have hValue : (v / 64 % 0x20 + 0xC0) % (64 >>> 1) * 64 + (v % 0x40 + 0x80 - 0x80) = v := by
    rw [show 64 >>> 1 = 32 from rfl]
    omega
  rw [step_of_tailOf (by omega) (by omega) hTail, continueWith_cons (by omega) (by show 128 ≤ _; omega)
    (by show _ ≤ 191; omega), continueWith, hValue]

/-- What may follow the first byte of three. -/
theorem step_three {v : Nat} (hLow : 0x800 ≤ v) (hHigh : v ≤ 0xFFFF) (hValid : v < 0xD800 ∨ 0xDFFF < v)
    (bs : Bytes) :
    step (UInt8.ofNat (v / 4096 % 0x10 + 0xE0)) (UInt8.ofNat (v / 64 % 0x40 + 0x80) ::
      UInt8.ofNat (v % 0x40 + 0x80) :: bs) = .char (Char.ofNat v) 3 := by
  obtain ⟨lo, hi, hTail, hLo, hHi⟩ : ∃ lo hi, tailOf (UInt8.ofNat (v / 4096 % 0x10 + 0xE0)) =
      some (2, lo, hi) ∧ lo.toNat ≤ v / 64 % 0x40 + 0x80 ∧ v / 64 % 0x40 + 0x80 ≤ hi.toNat := by
    rw [tailOf_ofNat _ (by omega), if_neg (by omega)]
    by_cases hFirst : v / 4096 % 0x10 + 0xE0 = 0xE0
    · rw [if_pos hFirst]
      exact ⟨0xA0, 0xBF, rfl, by show 160 ≤ _; omega, by show _ ≤ 191; omega⟩
    · rw [if_neg hFirst]
      by_cases hSurrogate : v / 4096 % 0x10 + 0xE0 = 0xED
      · rw [if_pos hSurrogate]
        exact ⟨0x80, 0x9F, rfl, by show 128 ≤ _; omega, by show _ ≤ 159; omega⟩
      · rw [if_neg hSurrogate, if_pos (by omega)]
        exact ⟨0x80, 0xBF, rfl, by show 128 ≤ _; omega, by show _ ≤ 191; omega⟩
  have hValue : ((v / 4096 % 0x10 + 0xE0) % (64 >>> 2) * 64 + (v / 64 % 0x40 + 0x80 - 0x80)) * 64 +
      (v % 0x40 + 0x80 - 0x80) = v := by
    rw [show 64 >>> 2 = 16 from rfl]
    omega
  rw [step_of_tailOf (by omega) (by omega) hTail, continueWith_cons (by omega) hLo hHi,
    continueWith_cons (by omega) (by show 128 ≤ _; omega) (by show _ ≤ 191; omega), continueWith, hValue]

theorem step_four {v : Nat} (hLow : 0x10000 ≤ v) (hHigh : v < 0x110000) (bs : Bytes) :
    step (UInt8.ofNat (v / 262144 % 0x08 + 0xF0)) (UInt8.ofNat (v / 4096 % 0x40 + 0x80) ::
      UInt8.ofNat (v / 64 % 0x40 + 0x80) :: UInt8.ofNat (v % 0x40 + 0x80) :: bs) =
      .char (Char.ofNat v) 4 := by
  obtain ⟨lo, hi, hTail, hLo, hHi⟩ : ∃ lo hi, tailOf (UInt8.ofNat (v / 262144 % 0x08 + 0xF0)) =
      some (3, lo, hi) ∧ lo.toNat ≤ v / 4096 % 0x40 + 0x80 ∧ v / 4096 % 0x40 + 0x80 ≤ hi.toNat := by
    rw [tailOf_ofNat _ (by omega), if_neg (by omega), if_neg (by omega), if_neg (by omega),
      if_neg (by omega)]
    by_cases hFirst : v / 262144 % 0x08 + 0xF0 = 0xF0
    · rw [if_pos hFirst]
      exact ⟨0x90, 0xBF, rfl, by show 144 ≤ _; omega, by show _ ≤ 191; omega⟩
    · rw [if_neg hFirst]
      by_cases hLast : v / 262144 % 0x08 + 0xF0 = 0xF4
      · rw [if_neg (by omega), if_pos hLast]
        exact ⟨0x80, 0x8F, rfl, by show 128 ≤ _; omega, by show _ ≤ 143; omega⟩
      · rw [if_pos (by omega)]
        exact ⟨0x80, 0xBF, rfl, by show 128 ≤ _; omega, by show _ ≤ 191; omega⟩
  have hValue : (((v / 262144 % 0x08 + 0xF0) % (64 >>> 3) * 64 + (v / 4096 % 0x40 + 0x80 - 0x80)) * 64 +
      (v / 64 % 0x40 + 0x80 - 0x80)) * 64 + (v % 0x40 + 0x80 - 0x80) = v := by
    rw [show 64 >>> 3 = 8 from rfl]
    omega
  rw [step_of_tailOf (by omega) (by omega) hTail, continueWith_cons (by omega) hLo hHi,
    continueWith_cons (by omega) (by show 128 ≤ _; omega) (by show _ ≤ 191; omega),
    continueWith_cons (by omega) (by show 128 ≤ _; omega) (by show _ ≤ 191; omega), continueWith, hValue]

/-- A character is read back from its bytes. -/
theorem step_encodeChar (c : Char) (bs : Bytes) : ∃ b tail, String.utf8EncodeChar c = b :: tail ∧
    step b (tail ++ bs) = .char c (tail.length + 1) := by
  have hChar : Char.ofNat c.val.toNat = c := Char.ofNat_toNat c
  have hValid : c.val.toNat < 0xD800 ∨ 0xDFFF < c.val.toNat ∧ c.val.toNat < 0x110000 := c.valid
  rw [String.utf8EncodeChar]
  generalize c.val.toNat = v at hChar hValid
  subst hChar
  split
  · rename_i hSmall
    refine ⟨_, _, rfl, ?_⟩
    have hNat : (UInt8.ofNat v).toNat = v := UInt8.toNat_ofNat_of_lt' (by show v < 256; omega)
    rw [step, if_pos, hNat]
    · rfl
    · rw [UInt8.lt_iff_toNat_lt, hNat]
      show v < 128
      omega
  · split
    · exact ⟨_, _, rfl, step_two (by omega) (by omega) bs⟩
    · split
      · exact ⟨_, _, rfl, step_three (by omega) (by omega) (by omega) bs⟩
      · exact ⟨_, _, rfl, step_four (by omega) (by omega) bs⟩

theorem decodeWith_encode (bad : Char) (t : Text) (fuel : Nat) (hFuel : t.length ≤ fuel) :
    decodeWith bad fuel (encode t) = t := by
  induction t generalizing fuel with
  | nil => cases fuel <;> rfl
  | cons c cs ih =>
    obtain ⟨fuel, rfl⟩ := Nat.exists_eq_add_of_le' (Nat.le_trans (Nat.le_add_left 1 _) hFuel)
    obtain ⟨b, tail, hBytes, hStep⟩ := step_encodeChar c (encode cs)
    rw [encode, List.flatMap_cons, ← encode, hBytes, List.cons_append, decodeWith, hStep]
    simp only [Nat.add_sub_cancel, List.drop_left, ih fuel (Nat.le_of_succ_le_succ hFuel)]

theorem firstBroken_encode (t : Text) (fuel offset : Nat) : firstBroken fuel offset (encode t) = none := by
  induction t generalizing fuel offset with
  | nil => cases fuel <;> rfl
  | cons c cs ih =>
    cases fuel with
    | zero => rfl
    | succ fuel =>
      obtain ⟨b, tail, hBytes, hStep⟩ := step_encodeChar c (encode cs)
      rw [encode, List.flatMap_cons, ← encode, hBytes, List.cons_append, firstBroken, hStep]
      simp only [Nat.add_sub_cancel, List.drop_left, ih]

theorem length_le_encode (t : Text) : t.length ≤ (encode t).length := by
  induction t with
  | nil => exact Nat.le_refl 0
  | cons c cs ih =>
    have hChar := List.length_pos_iff.mpr (String.utf8EncodeChar_ne_nil (c := c))
    rw [encode, List.flatMap_cons, ← encode, List.length_append, List.length_cons]
    omega

theorem decodeLossy_encode (t : Text) : decodeLossy (encode t) = t :=
  decodeWith_encode _ t _ (length_le_encode t)

/-- Text is decoded from its encoding. -/
theorem decode_encode (t : Text) : decode (encode t) = .ok t := by
  rw [decode, firstBroken_encode, decodeLossy_encode]

theorem encodeChar_ofNat {v : Nat} (hValid : v < 0xD800 ∨ 0xDFFF < v ∧ v < 0x110000) :
    String.utf8EncodeChar (Char.ofNat v) =
      if v ≤ 0x7F then [UInt8.ofNat v]
      else if v ≤ 0x7FF then [UInt8.ofNat (v / 64 % 0x20 + 0xC0), UInt8.ofNat (v % 0x40 + 0x80)]
      else if v ≤ 0xFFFF then
        [UInt8.ofNat (v / 4096 % 0x10 + 0xE0), UInt8.ofNat (v / 64 % 0x40 + 0x80),
          UInt8.ofNat (v % 0x40 + 0x80)]
      else
        [UInt8.ofNat (v / 262144 % 0x08 + 0xF0), UInt8.ofNat (v / 4096 % 0x40 + 0x80),
          UInt8.ofNat (v / 64 % 0x40 + 0x80), UInt8.ofNat (v % 0x40 + 0x80)] := by
  have hNat : (Char.ofNat v).val.toNat = v := by
    rw [Char.ofNat, dif_pos hValid]
    rfl
  rw [String.utf8EncodeChar, hNat]

/-- A sequence that goes on has a byte in the range. -/
theorem exists_of_continueWith {width value count w : Nat} {lo hi : UInt8} {bs : Bytes} {c : Char}
    (h : continueWith width value (count + 1) lo hi bs = .char c w) :
    ∃ n rest, bs = UInt8.ofNat n :: rest ∧ lo.toNat ≤ n ∧ n ≤ hi.toNat ∧
      continueWith (width + 1) (value * 64 + (n - 0x80)) count 0x80 0xBF rest = .char c w := by
  cases bs with
  | nil => cases h
  | cons b rest =>
    rw [continueWith] at h
    split at h
    · rename_i hRange
      rw [Bool.and_eq_true, decide_eq_true_eq, decide_eq_true_eq] at hRange
      refine ⟨b.toNat, rest, by rw [UInt8.ofNat_toNat], ?_, ?_, h⟩
      · exact UInt8.le_iff_toNat_le.mp hRange.1
      · exact UInt8.le_iff_toNat_le.mp hRange.2
    · cases h

theorem encode_two {n : Nat} (hFirst : 0xC2 ≤ n ∧ n ≤ 0xDF) {bs : Bytes} {c : Char} {w : Nat}
    (h : continueWith 1 (n % 32) 1 0x80 0xBF bs = .char c w) :
    String.utf8EncodeChar c ++ bs.drop (w - 1) = UInt8.ofNat n :: bs := by
  obtain ⟨m, rest, rfl, hLow, hHigh, hEnd⟩ := exists_of_continueWith h
  change 128 ≤ m at hLow
  change m ≤ 191 at hHigh
  obtain ⟨rfl, rfl⟩ := Step.char.inj hEnd
  rw [encodeChar_ofNat (by omega), if_neg (by omega), if_pos (by omega)]
  have hn : (n % 32 * 64 + (m - 0x80)) / 64 % 0x20 + 0xC0 = n := by omega
  have hm : (n % 32 * 64 + (m - 0x80)) % 0x40 + 0x80 = m := by omega
  rw [hn, hm]
  rfl

theorem encode_three {n : Nat} {lo hi : UInt8} (hFirst : 0xE0 ≤ n ∧ n ≤ 0xEF)
    (hRange : 0x80 ≤ lo.toNat ∧ hi.toNat ≤ 0xBF) (hShort : n = 0xE0 → 0xA0 ≤ lo.toNat)
    (hSurrogate : n = 0xED → hi.toNat ≤ 0x9F) {bs : Bytes} {c : Char} {w : Nat}
    (h : continueWith 1 (n % 16) 2 lo hi bs = .char c w) :
    String.utf8EncodeChar c ++ bs.drop (w - 1) = UInt8.ofNat n :: bs := by
  obtain ⟨m, rest, rfl, hLow, hHigh, hNext⟩ := exists_of_continueWith h
  obtain ⟨l, rest, rfl, hLow', hHigh', hEnd⟩ := exists_of_continueWith hNext
  change 128 ≤ l at hLow'
  change l ≤ 191 at hHigh'
  obtain ⟨rfl, rfl⟩ := Step.char.inj hEnd
  rw [encodeChar_ofNat (by omega), if_neg (by omega), if_neg (by omega), if_pos (by omega)]
  have hn : ((n % 16 * 64 + (m - 0x80)) * 64 + (l - 0x80)) / 4096 % 0x10 + 0xE0 = n := by omega
  have hm : ((n % 16 * 64 + (m - 0x80)) * 64 + (l - 0x80)) / 64 % 0x40 + 0x80 = m := by omega
  have hl : ((n % 16 * 64 + (m - 0x80)) * 64 + (l - 0x80)) % 0x40 + 0x80 = l := by omega
  rw [hn, hm, hl]
  rfl

theorem encode_four {n : Nat} {lo hi : UInt8} (hFirst : 0xF0 ≤ n ∧ n ≤ 0xF4)
    (hRange : 0x80 ≤ lo.toNat ∧ hi.toNat ≤ 0xBF) (hShort : n = 0xF0 → 0x90 ≤ lo.toNat)
    (hLast : n = 0xF4 → hi.toNat ≤ 0x8F) {bs : Bytes} {c : Char} {w : Nat}
    (h : continueWith 1 (n % 8) 3 lo hi bs = .char c w) :
    String.utf8EncodeChar c ++ bs.drop (w - 1) = UInt8.ofNat n :: bs := by
  obtain ⟨m, rest, rfl, hLow, hHigh, hNext⟩ := exists_of_continueWith h
  obtain ⟨l, rest, rfl, hLow', hHigh', hNext⟩ := exists_of_continueWith hNext
  obtain ⟨k, rest, rfl, hLow'', hHigh'', hEnd⟩ := exists_of_continueWith hNext
  change 128 ≤ l at hLow'
  change l ≤ 191 at hHigh'
  change 128 ≤ k at hLow''
  change k ≤ 191 at hHigh''
  obtain ⟨rfl, rfl⟩ := Step.char.inj hEnd
  rw [encodeChar_ofNat (by omega), if_neg (by omega), if_neg (by omega), if_neg (by omega)]
  have hn : (((n % 8 * 64 + (m - 0x80)) * 64 + (l - 0x80)) * 64 + (k - 0x80)) / 262144 % 0x08 + 0xF0 = n := by
    omega
  have hm : (((n % 8 * 64 + (m - 0x80)) * 64 + (l - 0x80)) * 64 + (k - 0x80)) / 4096 % 0x40 + 0x80 = m := by
    omega
  have hl : (((n % 8 * 64 + (m - 0x80)) * 64 + (l - 0x80)) * 64 + (k - 0x80)) / 64 % 0x40 + 0x80 = l := by
    omega
  have hk : (((n % 8 * 64 + (m - 0x80)) * 64 + (l - 0x80)) * 64 + (k - 0x80)) % 0x40 + 0x80 = k := by
    omega
  rw [hn, hm, hl, hk]
  rfl

/-- The table of first bytes by the number of bytes that follow. -/
theorem tailOf_cases {n : Nat} (hByte : n < 256) {t : Nat × UInt8 × UInt8} (h : tailOf (UInt8.ofNat n) = some t) :
    (t = (1, 0x80, 0xBF) ∧ 0xC2 ≤ n ∧ n ≤ 0xDF) ∨
    (t.1 = 2 ∧ (0xE0 ≤ n ∧ n ≤ 0xEF) ∧ (0x80 ≤ t.2.1.toNat ∧ t.2.2.toNat ≤ 0xBF) ∧
      (n = 0xE0 → 0xA0 ≤ t.2.1.toNat) ∧ (n = 0xED → t.2.2.toNat ≤ 0x9F)) ∨
    (t.1 = 3 ∧ (0xF0 ≤ n ∧ n ≤ 0xF4) ∧ (0x80 ≤ t.2.1.toNat ∧ t.2.2.toNat ≤ 0xBF) ∧
      (n = 0xF0 → 0x90 ≤ t.2.1.toNat) ∧ (n = 0xF4 → t.2.2.toNat ≤ 0x8F)) := by
  rw [tailOf_ofNat n hByte] at h
  repeat' split at h
  all_goals cases h
  all_goals
    simp
    omega

/-- The bytes that were read as a character are the bytes of this character. -/
theorem encodeChar_of_step {b : UInt8} {bs : Bytes} {c : Char} {width : Nat}
    (h : step b bs = .char c width) : String.utf8EncodeChar c ++ bs.drop (width - 1) = b :: bs := by
  have hByte : UInt8.ofNat b.toNat = b := UInt8.ofNat_toNat
  rw [step] at h
  split at h
  · rename_i hSmall
    rw [UInt8.lt_iff_toNat_lt] at hSmall
    change b.toNat < 128 at hSmall
    obtain ⟨rfl, rfl⟩ := Step.char.inj h
    rw [encodeChar_ofNat (by omega), if_pos (by omega), hByte]
    rfl
  · split at h
    · cases h
    · rename_i count lo hi hTail
      rw [← hByte] at hTail ⊢
      rcases tailOf_cases b.toNat_lt hTail with
        ⟨hTwo, hFirst⟩ | ⟨rfl, hFirst, hRange, hShort, hSurrogate⟩ | ⟨rfl, hFirst, hRange, hShort, hLast⟩
      · cases hTwo
        exact encode_two hFirst h
      · exact encode_three hFirst hRange hShort hSurrogate h
      · exact encode_four hFirst hRange hShort hLast h

theorem encode_decodeWith {bad : Char} {fuel offset : Nat} {bs : Bytes} (hFuel : bs.length ≤ fuel)
    (h : firstBroken fuel offset bs = none) : encode (decodeWith bad fuel bs) = bs := by
  induction fuel generalizing offset bs with
  | zero =>
    rw [List.length_eq_zero_iff.mp (Nat.le_zero.mp hFuel)]
    rfl
  | succ fuel ih =>
    cases bs with
    | nil => rfl
    | cons b bs =>
      rw [firstBroken] at h
      rw [decodeWith]
      split at h
      · rename_i c width hStep
        rw [List.length_cons] at hFuel
        have hRest : (bs.drop (width - 1)).length ≤ fuel := by
          rw [List.length_drop]
          omega
        show String.utf8EncodeChar c ++ encode (decodeWith bad fuel (bs.drop (width - 1))) = b :: bs
        rw [ih hRest h, encodeChar_of_step hStep]
      · cases h

/-- Decoding succeeds on the encoding of a text and on nothing else. -/
theorem decode_eq_ok_iff (bs : Bytes) (t : Text) : decode bs = .ok t ↔ bs = encode t := by
  constructor
  · intro h
    rw [decode] at h
    split at h
    · rename_i hWhole
      rw [← Except.ok.inj h]
      exact (encode_decodeWith (Nat.le_refl _) hWhole).symm
    · cases h
  · rintro rfl
    exact decode_encode t

end GoCommands.Utf8
