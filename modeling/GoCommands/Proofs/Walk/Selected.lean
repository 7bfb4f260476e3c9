import GoCommands.Proofs.Constraint.Decided
import GoCommands.Proofs.Text.Invalid
import GoCommands.Proofs.Walk.Directory

/-! # Selection by the header

A file is read as bytes and selected before it is known to be text. Behind a header that decides, the bytes have no
part in the selection; of a selected file they have to be text, or the first one that is not is reported.
-/

namespace GoCommands.Walk

open Utf8 Constraint

section

variable {header : Text} {x y : Bytes} {fs fs' : FileSystem} {path path' : Path}

theorem selects_of_decided (hBreak : header.getLast? = some '\n')
    (hDecided : (find? header).isSome ∨ StopsIn false (Text.lines header)) (x : Bytes) (tag : Text) :
    selects (decodeLossy (encode header ++ x)) tag = selects header tag := by
  rw [decodeLossy_encode_append, selects, selects, (find?_append_iff hBreak).mpr hDecided]

theorem readTagged_eq_none_iff_of_header (tag : Text) (hBreak : header.getLast? = some '\n')
    (hDecided : (find? header).isSome ∨ StopsIn false (Text.lines header))
    (hx : fs.bytes path = .ok (encode header ++ x)) :
    readTagged fs path (some tag) = .ok none ↔ ¬ selects header tag := by
  rw [readTagged_eq_none_iff, hx]
  simp only [Except.ok.injEq, exists_eq_left', selects_of_decided hBreak hDecided]

/-- The first invalid byte of a file that is read but not text is reported by its line and column. -/
theorem readTagged_invalid {bytes : Bytes} {tag : Text} (hBytes : fs.bytes path = .ok bytes)
    (hText : ¬ IsText bytes) (hSelected : readTagged fs path (some tag) ≠ .ok none) : ∃ n, FirstInvalid bytes n ∧
      readTagged fs path (some tag) =
        .error (.invalidText path (position (bytes.take n)).1 (position (bytes.take n)).2) := by
  cases hDecode : decode bytes with
  | ok text => exact absurd ⟨text, ((decode_eq_ok_iff bytes text).mp hDecode).symm⟩ hText
  | error n =>
    refine ⟨n, firstInvalid_of_decode hDecode, ?_⟩
    have hTag : selects (decodeLossy bytes) tag := by
      by_contra hUnselected
      exact hSelected (readTagged_eq_none_iff.mpr ⟨bytes, hBytes, hUnselected⟩)
    rw [readTagged, hBytes]
    simp only [Option.any_some, hTag, hDecode]
    rfl

/-- The first invalid byte of a file that starts with text stands behind that text. -/
theorem length_le_of_firstInvalid {n : Nat} (h : FirstInvalid (encode header ++ x) n) : (encode header).length ≤ n := by
  by_contra hInside
  refine h.longest (encode header).length (Nat.lt_of_not_le hInside) ?_ ?_
  · rw [List.length_append]
    exact Nat.le_add_right _ _
  · exact ⟨header, List.take_left.symm⟩

theorem break_mem_encode (hBreak : header.getLast? = some '\n') : byte '\n' ∈ encode header := by
  obtain ⟨front, rfl⟩ := List.getLast?_eq_some_iff.mp hBreak
  rw [encode_append]
  exact List.mem_append_right _ (by decide)

/-- Two files that start with the same deciding header are selected alike, by the header. A selected one is given as its
text, or it is not text and the place of its first invalid byte is reported. -/
theorem readTagged_header (tag : Text) (hBreak : header.getLast? = some '\n')
    (hDecided : (find? header).isSome ∨ StopsIn false (Text.lines header))
    (hx : fs.bytes path = .ok (encode header ++ x)) (hy : fs'.bytes path' = .ok (encode header ++ y)) :
    (readTagged fs path (some tag) = .ok none ↔ readTagged fs' path' (some tag) = .ok none) ∧
    (readTagged fs path (some tag) = .ok none ↔ ¬ selects header tag) ∧
    (readTagged fs path (some tag) ≠ .ok none →
      (∀ text, readTagged fs path (some tag) = .ok (some text) ↔ encode text = encode header ++ x) ∧
      ((∃ text, readTagged fs path (some tag) = .ok (some text)) ↔ IsText x) ∧
      (¬ IsText x → ∃ n line column, FirstInvalid (encode header ++ x) n ∧
        StandsAt ((encode header ++ x).take n) line column ∧
        readTagged fs path (some tag) = .error (.invalidText path line column))) := by
  have hNone := readTagged_eq_none_iff_of_header tag hBreak hDecided hx
  have hOther := readTagged_eq_none_iff_of_header tag hBreak hDecided hy
  refine ⟨hNone.trans hOther.symm, hNone, fun hSelected => ?_⟩
  have hTag : selects header tag := not_not.mp (mt hNone.mpr hSelected)
  have hGiven : ∀ text, readTagged fs path (some tag) = .ok (some text) ↔ encode text = encode header ++ x := by
    intro text
    rw [readTagged_eq_some_iff, hx, Except.ok.injEq, eq_comm]
    refine and_iff_left_of_imp fun hText t ht => ?_
    obtain rfl := Option.some.inj ht
    rw [← decodeLossy_encode text, hText, selects_of_decided hBreak hDecided]
    exact hTag
  refine ⟨hGiven, ?_, fun hText => ?_⟩
  · simp only [hGiven]
    exact isText_encode_append_iff header x
  · obtain ⟨n, hInvalid, hError⟩ := readTagged_invalid hx (mt (isText_encode_append_iff header x).mp hText) hSelected
    refine ⟨n, _, _, hInvalid, standsAt_position ?_, hError⟩
    -- All of the header is before the byte, and with it a line break.
    obtain ⟨k, rfl⟩ := Nat.exists_eq_add_of_le (length_le_of_firstInvalid hInvalid)
    rw [List.take_length_add_append]
    exact List.mem_append_left _ (break_mem_encode hBreak)

end

section

def gantryHeader : Text := "// Tasks.\n//go:build gantry\n".toList

/-- Two files with one header, of which `b.go` is not text. -/
def headedFiles : FileSystem where
  entries _ := .ok [⟨"a.go".toList, .file⟩, ⟨"b.go".toList, .file⟩]
  bytes path := .ok (encode gantryHeader ++ if path = "b.go".toList then [0xFF] else encode "package ops".toList)

theorem readTagged_headedFiles : (find? gantryHeader).isSome ∧
    readTagged headedFiles "b.go".toList (some "gantry".toList) ≠ .ok none ∧
    readTagged headedFiles "a.go".toList (some "gantry".toList) ≠ .ok none ∧
    ∃ n line column, FirstInvalid (encode gantryHeader ++ [0xFF]) n ∧
      StandsAt ((encode gantryHeader ++ [0xFF]).take n) line column ∧
      readTagged headedFiles "b.go".toList (some "gantry".toList) =
        .error (.invalidText "b.go".toList line column) := by
  have hFound : (find? gantryHeader).isSome := by decide
  have hSelected : readTagged headedFiles "b.go".toList (some "gantry".toList) ≠ .ok none := by decide +kernel
  have hBroken : ¬ IsText [0xFF] := by
    rintro ⟨t, ht⟩
    have hDecode : decode [0xFF] = .error 0 := by decide
    rw [(decode_eq_ok_iff [0xFF] t).mpr ht.symm] at hDecode
    cases hDecode
  have hLast : headedFiles.bytes "b.go".toList = .ok (encode gantryHeader ++ [0xFF]) := rfl
  have hFirst : headedFiles.bytes "a.go".toList = .ok (encode gantryHeader ++ encode "package ops".toList) := rfl
  obtain ⟨hAlike, -, hGiven⟩ := readTagged_header "gantry".toList (by decide) (.inl hFound) hLast hFirst
  exact ⟨hFound, hSelected, mt hAlike.mpr hSelected, (hGiven hSelected).2.2 hBroken⟩

end

end GoCommands.Walk
