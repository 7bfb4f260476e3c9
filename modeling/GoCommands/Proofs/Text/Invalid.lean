import GoCommands.Proofs.Text.Bytes

/-! # Bytes that are not text

Text in front of other bytes is decoded on its own, whatever the others are. The strict decoding reports the first
byte that no text can have in its place.
-/

namespace GoCommands.Utf8

/-- The bytes are UTF-8. -/
def IsText (bs : Bytes) : Prop := ∃ t, encode t = bs

/-- The longest start of the bytes that is UTF-8 ends before the byte with this index. -/
structure FirstInvalid (bs : Bytes) (n : Nat) : Prop where
  lt_length : n < bs.length
  valid : IsText (bs.take n)
  longest : ∀ m, n < m → m ≤ bs.length → ¬ IsText (bs.take m)

/-- Line and column, both from one, of the byte behind some bytes with a line break. -/
structure StandsAt (before : Bytes) (line column : Nat) : Prop where
  line_eq : line = 1 + before.count (byte '\n')
  column_eq : ∃ front row, before = front ++ byte '\n' :: row ∧ byte '\n' ∉ row ∧ column = 1 + row.length

theorem decodeWith_of_length_le {bad : Char} {fuel more : Nat} {bs : Bytes} (h : bs.length ≤ fuel)
    (hMore : bs.length ≤ more) : decodeWith bad fuel bs = decodeWith bad more bs := by
  induction fuel generalizing more bs with
  | zero =>
    rw [List.length_eq_zero_iff.mp (Nat.le_zero.mp h)]
    cases more <;> rfl
  | succ fuel ih =>
    cases bs with
    | nil => cases more <;> rfl
    | cons b bs =>
      rw [List.length_cons] at h hMore
      obtain ⟨more, rfl⟩ := Nat.exists_eq_add_of_le' (Nat.le_trans (Nat.le_add_left 1 _) hMore)
      have hSame : ∀ k, decodeWith bad fuel (bs.drop k) = decodeWith bad more (bs.drop k) := by
        intro k
        apply ih
        · rw [List.length_drop]
          omega
        · rw [List.length_drop]
          omega
      rw [decodeWith, decodeWith]
      split
      · rw [hSame]
      · rw [hSame]

theorem decodeLossy_encode_append (t : Text) (bs : Bytes) :
    decodeLossy (encode t ++ bs) = t ++ decodeLossy bs := by
  induction t with
  | nil => rfl
  | cons c cs ih =>
    obtain ⟨b, tail, hBytes, hStep⟩ := step_encodeChar c (encode cs ++ bs)
    have hWhole : encode (c :: cs) ++ bs = b :: (tail ++ (encode cs ++ bs)) := by
      rw [encode_cons, hBytes, List.append_assoc, List.cons_append]
    rw [hWhole, decodeLossy, List.length_cons, decodeWith, hStep, List.cons_append, ← ih, decodeLossy]
    simp only [Nat.add_sub_cancel, List.drop_left]
    have hFuel : (encode cs ++ bs).length ≤ (tail ++ (encode cs ++ bs)).length :=
      (List.suffix_append tail _).length_le
    rw [decodeWith_of_length_le hFuel (Nat.le_refl _)]

theorem exists_of_encode_append {t u : Text} {bs : Bytes} (h : encode t ++ bs = encode u) :
    ∃ v, u = t ++ v ∧ encode v = bs := by
  have hText : u = t ++ decodeLossy bs := by
    rw [← decodeLossy_encode_append, h, decodeLossy_encode]
  refine ⟨decodeLossy bs, hText, ?_⟩
  rw [hText, encode_append] at h
  exact (List.append_cancel_left h).symm

theorem isText_encode_append_iff (t : Text) (bs : Bytes) : IsText (encode t ++ bs) ↔ IsText bs := by
  constructor
  · rintro ⟨u, hText⟩
    obtain ⟨v, -, hv⟩ := exists_of_encode_append hText.symm
    exact ⟨v, hv⟩
  · rintro ⟨u, rfl⟩
    exact ⟨t ++ u, encode_append t u⟩

/-- Before the place that is reported stands text, and there no character starts. -/
theorem exists_of_firstBroken {fuel offset n : Nat} {bs : Bytes} (h : firstBroken fuel offset bs = some n) :
    ∃ t b tail width, bs = encode t ++ b :: tail ∧ n = offset + (encode t).length ∧ step b tail = .broken width := by
  induction fuel generalizing offset bs with
  | zero => cases h
  | succ fuel ih =>
    cases bs with
    | nil => cases h
    | cons b bs =>
      rw [firstBroken] at h
      split at h
      · rename_i c width hStep
        have hChar := encodeChar_of_step hStep
        obtain ⟨t, b', tail, width', hRest, hn, hBroken⟩ := ih h
        refine ⟨c :: t, b', tail, width', ?_, ?_, hBroken⟩
        · rw [encode_cons, List.append_assoc, ← hRest, hChar]
        · have hWidth : (String.utf8EncodeChar c).length = width := by
            obtain ⟨b'', tail', hBytes, hStep'⟩ := step_encodeChar c (bs.drop (width - 1))
            rw [hBytes, List.cons_append, List.cons.injEq] at hChar
            rw [hChar.1, hChar.2, hStep] at hStep'
            rw [hBytes, List.length_cons, (Step.char.inj hStep').2]
          rw [hn, encode_cons, List.length_append, hWidth, Nat.add_assoc]
      · rename_i width hStep
        cases h
        exact ⟨[], b, bs, width, rfl, rfl, hStep⟩

theorem firstInvalid_of_decode {bs : Bytes} {n : Nat} (h : decode bs = .error n) : FirstInvalid bs n := by
  obtain ⟨t, b, tail, width, rfl, rfl, hBroken⟩ :
      ∃ t b tail width, bs = encode t ++ b :: tail ∧ n = (encode t).length ∧ step b tail = .broken width := by
    rw [decode] at h
    split at h
    · cases h
    · rename_i hFound
      cases h
      simpa using exists_of_firstBroken hFound
  refine ⟨by simp, ⟨t, List.take_left.symm⟩, ?_⟩
  rintro m hShort hLong ⟨u, hText⟩
  -- A longer start that is text goes on with a character at the place, and this one would be read there.
  obtain ⟨k, rfl⟩ := Nat.exists_eq_add_of_lt hShort
  rw [Nat.add_assoc, List.take_length_add_append, List.take_succ_cons] at hText
  obtain ⟨v, -, hv⟩ := exists_of_encode_append hText.symm
  cases v with
  | nil => cases hv
  | cons c v =>
    obtain ⟨b', tail', hBytes, hStep⟩ := step_encodeChar c (encode v ++ tail.drop k)
    rw [encode_cons, hBytes, List.cons_append, List.cons.injEq] at hv
    have hTail : tail' ++ (encode v ++ tail.drop k) = tail := by
      rw [← List.append_assoc, hv.2, List.take_append_drop]
    rw [hTail, hv.1, hBroken] at hStep
    cases hStep

theorem standsAt_position {before : Bytes} (h : byte '\n' ∈ before) :
    StandsAt before (position before).1 (position before).2 := by
  have hBreak : (10 : UInt8) = byte '\n' := by decide
  rw [position, hBreak]
  refine ⟨Nat.add_comm _ _, ?_⟩
  obtain ⟨row, front, hReverse, hRow⟩ := List.eq_append_cons_of_mem (List.mem_reverse.mpr h)
  refine ⟨front.reverse, row.reverse, ?_, fun hMem => hRow (List.mem_reverse.mp hMem), ?_⟩
  · rw [← List.reverse_reverse before, hReverse, List.reverse_append, List.reverse_cons, List.append_assoc,
      List.singleton_append]
  · have hAll : ∀ b ∈ row, (b != byte '\n') = true := fun b hb => by
      simpa using ne_of_mem_of_not_mem hb hRow
    have hTake : before.reverse.takeWhile (· != byte '\n') = row := by
      rw [hReverse, List.takeWhile_append_of_pos hAll, List.takeWhile_cons_of_neg (by simp), List.append_nil]
    rw [hTake, List.length_reverse]
    exact Nat.add_comm _ _

end GoCommands.Utf8
