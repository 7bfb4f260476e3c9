import GoCommands.Proofs.StructTag.Unescape

/-! # Struct tags as they are written

A value is written between double quotes, with a backslash before each backslash and each double quote of it. So the
first quote without a backslash closes it, and what looks like another pair inside a value is a part of the value.
Reading the tag gives back what was written.
-/

namespace GoCommands.StructTag

def escape (value : Text) : Text := value.flatMap fun c => if c = '\\' ∨ c = '"' then ['\\', c] else [c]

def written (pair : Text × Text) : Text := pair.1 ++ ':' :: '"' :: (escape pair.2 ++ ['"'])

/-- A key that can stand in a tag. -/
structure IsKey (key : Text) : Prop where
  nonempty : key ≠ []
  keyChars : ∀ c ∈ key, ' ' < c ∧ c ≠ ':' ∧ c ≠ '"' ∧ c ≠ '\x7f'

/-- The tag holds the written pairs in their order, with one or more spaces between them. -/
inductive Holds : List (Text × Text) → Text → Prop
  | nil : Holds [] []
  | last (pair : Text × Text) : Holds [pair] (written pair)
  | cons (pair next : Text × Text) (more : Nat) {pairs : List (Text × Text)} {tag : Text} :
    Holds (next :: pairs) tag →
      Holds (pair :: next :: pairs) (written pair ++ (List.replicate (more + 1) ' ' ++ tag))

theorem escape_cons (c : Char) (value : Text) :
    escape (c :: value) = (if c = '\\' ∨ c = '"' then ['\\', c] else [c]) ++ escape value :=
  List.flatMap_cons

theorem unescape_escape (value : Text) : unescape (escape value) = value := by
  induction value with
  | nil => rfl
  | cons c value ih =>
    rw [escape_cons]
    split
    · rename_i hEscaped
      have hLetter : Go.Interpreted.escaped? c = some c := by
        rcases hEscaped with rfl | rfl <;> decide
      rw [List.cons_append, List.singleton_append, unescape_of_escaped? hLetter, ih]
    · rename_i hPlain
      rw [List.singleton_append, unescape_cons (not_or.mp hPlain).1, ih]

theorem quoted?_cons {c : Char} (hQuote : c ≠ '"') (hSlash : c ≠ '\\') (t : Text) :
    quoted? (c :: t) = (quoted? t).map fun (value, behind) => (c :: value, behind) := by
  rw [quoted?]
  · exact hQuote
  · rintro d rest rfl
    exact absurd rfl hSlash

/-- The quotes of a value do not close it. -/
theorem quoted?_escape (value rest : Text) : quoted? (escape value ++ '"' :: rest) = some (escape value, rest) := by
  induction value with
  | nil => rfl
  | cons c value ih =>
    rw [escape_cons]
    split
    · show (quoted? (escape value ++ '"' :: rest)).map _ = _
      rw [ih]
      rfl
    · rename_i hPlain
      obtain ⟨hSlash, hQuote⟩ := not_or.mp hPlain
      rw [List.singleton_append, List.cons_append, quoted?_cons hQuote hSlash, ih]
      rfl

theorem isKeyChar_iff (c : Char) : isKeyChar c ↔ ' ' < c ∧ c ≠ ':' ∧ c ≠ '"' ∧ c ≠ '\x7f' := by
  simp [isKeyChar, and_assoc]

theorem IsKey.isKeyChar {key : Text} (h : IsKey key) : ∀ c ∈ key, isKeyChar c :=
  fun c hc => (isKeyChar_iff c).mpr (h.keyChars c hc)

theorem pair?_written {pair : Text × Text} (h : IsKey pair.1) (rest : Text) :
    pair? (written pair ++ rest) = some ((pair.1, escape pair.2), rest) := by
  obtain ⟨key, value⟩ := pair
  obtain ⟨c, cs, rfl⟩ := List.exists_cons_of_ne_nil h.nonempty
  have hSpace : ¬ (c == ' ') := by
    rw [beq_iff_eq]
    rintro rfl
    exact absurd (h.keyChars ' ' List.mem_cons_self).1 (by decide)
  have hTag : written (c :: cs, value) ++ rest = c :: cs ++ ':' :: '"' :: (escape value ++ '"' :: rest) := by
    simp [written]
  have hDrop : ((c :: cs) ++ ':' :: '"' :: (escape value ++ '"' :: rest)).dropWhile (· == ' ') =
      c :: cs ++ ':' :: '"' :: (escape value ++ '"' :: rest) := by
    exact List.dropWhile_cons_of_neg hSpace
  have hColon : ¬ StructTag.isKeyChar ':' := by decide
  simp only [pair?, hTag, hDrop, List.takeWhile_append_of_pos h.isKeyChar, List.dropWhile_append_of_pos h.isKeyChar,
    List.takeWhile_cons_of_neg hColon, List.dropWhile_cons_of_neg hColon, List.append_nil, List.isEmpty_cons,
    Bool.false_eq_true, if_false, quoted?_escape, Option.map_some]

theorem pair?_spaces (n : Nat) (tag : Text) : pair? (List.replicate n ' ' ++ tag) = pair? tag := by
  have hSpaces : ∀ c ∈ List.replicate n ' ', (c == ' ') = true := by
    intro c hc
    rw [List.eq_of_mem_replicate hc]
    rfl
  rw [pair?, pair?, List.dropWhile_append_of_pos hSpaces]

theorem pairsWithin_spaces (fuel n : Nat) (tag : Text) :
    pairsWithin fuel (List.replicate n ' ' ++ tag) = pairsWithin fuel tag := by
  cases fuel with
  | zero => rfl
  | succ fuel => rw [pairsWithin, pairsWithin, pair?_spaces]

namespace Holds

variable {pairs : List (Text × Text)} {tag : Text} (h : Holds pairs tag)
include h

theorem length_le : pairs.length ≤ tag.length := by
  have hWritten : ∀ pair : Text × Text, 0 < (written pair).length := by
    intro pair
    simp only [written, List.length_append, List.length_cons]
    omega
  induction h with
  | nil => exact Nat.le_refl 0
  | last pair => exact hWritten pair
  | cons pair next more _ ih =>
    have hPair := hWritten pair
    rw [List.length_cons, List.length_append, List.length_append]
    omega

theorem pairsWithin_eq (hKeys : ∀ pair ∈ pairs, IsKey pair.1) {fuel : Nat} (hFuel : pairs.length ≤ fuel) :
    pairsWithin fuel tag = pairs.map (Prod.map id escape) := by
  induction h generalizing fuel with
  | nil => cases fuel <;> rfl
  | last pair =>
    obtain ⟨fuel, rfl⟩ := Nat.exists_eq_succ_of_ne_zero (Nat.ne_zero_of_lt hFuel)
    have hPair := pair?_written (hKeys pair List.mem_cons_self) []
    rw [List.append_nil] at hPair
    rw [pairsWithin, hPair]
    cases fuel <;> rfl
  | cons pair next more _ ih =>
    obtain ⟨fuel, rfl⟩ := Nat.exists_eq_succ_of_ne_zero (Nat.ne_zero_of_lt hFuel)
    obtain ⟨hKey, hRest⟩ := List.forall_mem_cons.mp hKeys
    rw [pairsWithin, pair?_written hKey]
    simp only [pairsWithin_spaces, ih hRest (Nat.le_of_succ_le_succ hFuel)]
    rfl

end Holds

theorem find?_escaped (pairs : List (Text × Text)) (key : Text) :
    ((pairs.map (Prod.map id escape)).find? fun pair => pair.1 == key).map (fun pair => unescape pair.2) =
      pairs.lookup key := by
  induction pairs with
  | nil => rfl
  | cons pair pairs ih =>
    rw [List.map_cons, List.find?_cons, List.lookup_cons, Prod.map_fst, id, Bool.beq_comm]
    split
    · simp [unescape_escape]
    · exact ih

/-- In a tag that holds some pairs a key has the value of its first pair, exactly as it was before it was written. -/
theorem lookup_of_holds {pairs : List (Text × Text)} {tag : Text} (h : Holds pairs tag)
    (hKeys : ∀ pair ∈ pairs, IsKey pair.1) (key : Text) : lookup tag key = pairs.lookup key := by
  rw [lookup, StructTag.pairs, h.pairsWithin_eq hKeys h.length_le, find?_escaped]

/-- A value with quotes, a backslash at its end and what looks like another pair, and a key that occurs twice. -/
def nestedPairs : List (Text × Text) :=
  [("json".toList, "a\" gantry:\"b\\".toList), ("gantry".toList, "name=C:\\n".toList), ("gantry".toList, [])]

def nestedTag : Text := "json:\"a\\\" gantry:\\\"b\\\\\"  gantry:\"name=C:\\\\n\" gantry:\"\"".toList

theorem lookup_of_holds_nestedPairs : Holds nestedPairs nestedTag ∧ (∀ pair ∈ nestedPairs, IsKey pair.1) ∧
    lookup nestedTag "gantry".toList = some "name=C:\\n".toList ∧ lookup nestedTag "yaml".toList = none := by
  have hHolds : Holds nestedPairs nestedTag := .cons _ _ 1 (.cons _ _ 0 (.last _))
  have hKeys : ∀ pair ∈ nestedPairs, IsKey pair.1 := by
    have hAll : ∀ pair ∈ nestedPairs, pair.1 ≠ [] ∧ pair.1.all isKeyChar := by decide
    intro pair hPair
    obtain ⟨hNonempty, hChars⟩ := hAll pair hPair
    exact ⟨hNonempty, fun c hc => (isKeyChar_iff c).mp (List.all_eq_true.mp hChars c hc)⟩
  refine ⟨hHolds, hKeys, ?_, ?_⟩
  · rw [lookup_of_holds hHolds hKeys]
    decide
  · rw [lookup_of_holds hHolds hKeys]
    decide

end GoCommands.StructTag
