import GoCommands.Proofs.Constraint.Spelling

/-! # Derivations of build constraints

The grammar has one rule for each strength of binding. Reading finds the derivation of a token sequence
where there is one: what a reader takes from the front of its input is derived by its rule, and what the
rule derives is taken whole unless the binary operator of the rule comes next.
-/

namespace GoCommands.Constraint

/-- The rules of the grammar, from the weakest binding on. -/
inductive Rule where
  | disjunction
  | conjunction
  | negation
  | atom

/-- The tokens derive the constraint by the rule. Operands of a binary operator are collected from the
left, so the right one is of the next stronger rule. -/
inductive Derives : Rule → List Token → Constraint → Prop
  | or {ts us : List Token} {e f : Constraint} : Derives .disjunction ts e → Derives .conjunction us f →
    Derives .disjunction (ts ++ .or :: us) (.or e f)
  | conjunction {ts : List Token} {e : Constraint} : Derives .conjunction ts e → Derives .disjunction ts e
  | and {ts us : List Token} {e f : Constraint} : Derives .conjunction ts e → Derives .negation us f →
    Derives .conjunction (ts ++ .and :: us) (.and e f)
  | negation {ts : List Token} {e : Constraint} : Derives .negation ts e → Derives .conjunction ts e
  | not {ts : List Token} {e : Constraint} : Derives .negation ts e → Derives .negation (.not :: ts) (.not e)
  | atom {ts : List Token} {e : Constraint} : Derives .atom ts e → Derives .negation ts e
  | tag (name : Text) : Derives .atom [.tag name] (.tag name)
  | parens {ts : List Token} {e : Constraint} : Derives .disjunction ts e →
    Derives .atom (.open :: ts ++ [.close]) e

/-- A text that spells tokens from which the constraint is derived. -/
def IsWritten (t : Text) (e : Constraint) : Prop := ∃ ts, Spells t ts ∧ Derives .disjunction ts e

theorem Derives.length_pos {rule : Rule} {ts : List Token} {e : Constraint} (h : Derives rule ts e) :
    0 < ts.length := by
  induction h with
  | or | and => simp only [List.length_append, List.length_cons]; omega
  | not | tag | parens => exact Nat.succ_pos _
  | conjunction _ ih | negation _ ih | atom _ ih => exact ih

theorem bind_eq_ok_iff {α β : Type} {read : Except SyntaxError α} {next : α → Except SyntaxError β} {b : β} :
    (read >>= next) = .ok b ↔ ∃ a, read = .ok a ∧ next a = .ok b := by
  cases read with
  | error cause => exact iff_of_false (fun h => by cases h) fun ⟨_, h, _⟩ => by cases h
  | ok a => exact ⟨fun h => ⟨a, rfl, h⟩, fun ⟨_, ha, h⟩ => Except.ok.inj ha ▸ h⟩

section Soundness

/-- The reader takes tokens that the rule derives. -/
def TakesDerived (rule : Rule) (read : List Token → Reading) : Prop :=
  ∀ ts e rest, read ts = .ok (e, rest) → ∃ front, ts = front ++ rest ∧ Derives rule front e

/-- The reader takes tokens that continue what the rule derives. -/
def TakesMore (rule : Rule) (read : Constraint → List Token → Reading) : Prop :=
  ∀ left ts e rest, read left ts = .ok (e, rest) →
    ∃ more, ts = more ++ rest ∧ ∀ front, Derives rule front left → Derives rule (front ++ more) e

/-- All readers of one fuel keep to their rules. -/
structure Sound (fuel : Nat) : Prop where
  disjunction : TakesDerived .disjunction (disjunction fuel)
  disjunctionTail : TakesMore .disjunction (disjunctionTail fuel)
  conjunction : TakesDerived .conjunction (conjunction fuel)
  conjunctionTail : TakesMore .conjunction (conjunctionTail fuel)
  negation : TakesDerived .negation (negation fuel)
  atom : TakesDerived .atom (atom fuel)

theorem takesMore_done {rule : Rule} {left e : Constraint} {ts rest : List Token}
    (h : (.ok (left, ts) : Reading) = .ok (e, rest)) :
    ∃ more, ts = more ++ rest ∧ ∀ front, Derives rule front left → Derives rule (front ++ more) e := by
  cases h
  exact ⟨[], rfl, fun front hFront => by rwa [List.append_nil]⟩

variable {fuel : Nat}

theorem takesDerived_disjunction (h : Sound fuel) : TakesDerived .disjunction (disjunction (fuel + 1)) := by
  intro ts e rest hRead
  rw [Constraint.disjunction] at hRead
  obtain ⟨⟨left, behind⟩, hLeft, hTail⟩ := bind_eq_ok_iff.mp hRead
  obtain ⟨front, rfl, hFront⟩ := h.conjunction _ _ _ hLeft
  obtain ⟨more, rfl, hMore⟩ := h.disjunctionTail _ _ _ _ hTail
  exact ⟨front ++ more, (List.append_assoc ..).symm, hMore front hFront.conjunction⟩

theorem takesDerived_conjunction (h : Sound fuel) : TakesDerived .conjunction (conjunction (fuel + 1)) := by
  intro ts e rest hRead
  rw [Constraint.conjunction] at hRead
  obtain ⟨⟨left, behind⟩, hLeft, hTail⟩ := bind_eq_ok_iff.mp hRead
  obtain ⟨front, rfl, hFront⟩ := h.negation _ _ _ hLeft
  obtain ⟨more, rfl, hMore⟩ := h.conjunctionTail _ _ _ _ hTail
  exact ⟨front ++ more, (List.append_assoc ..).symm, hMore front hFront.negation⟩

theorem takesMore_disjunctionTail (h : Sound fuel) : TakesMore .disjunction (disjunctionTail (fuel + 1)) := by
  intro left ts e rest hRead
  rw [Constraint.disjunctionTail.eq_def] at hRead
  split at hRead
  · rename_i ts _ hFuel
    cases hFuel
    obtain ⟨⟨right, behind⟩, hRight, hTail⟩ := bind_eq_ok_iff.mp hRead
    obtain ⟨us, rfl, hUs⟩ := h.conjunction _ _ _ hRight
    obtain ⟨more, rfl, hMore⟩ := h.disjunctionTail _ _ _ _ hTail
    refine ⟨.or :: us ++ more, by simp, fun front hFront => ?_⟩
    rw [← List.append_assoc]
    exact hMore _ (hFront.or hUs)
  · exact takesMore_done hRead

theorem takesMore_conjunctionTail (h : Sound fuel) : TakesMore .conjunction (conjunctionTail (fuel + 1)) := by
  intro left ts e rest hRead
  rw [Constraint.conjunctionTail.eq_def] at hRead
  split at hRead
  · rename_i ts _ hFuel
    cases hFuel
    obtain ⟨⟨right, behind⟩, hRight, hTail⟩ := bind_eq_ok_iff.mp hRead
    obtain ⟨us, rfl, hUs⟩ := h.negation _ _ _ hRight
    obtain ⟨more, rfl, hMore⟩ := h.conjunctionTail _ _ _ _ hTail
    refine ⟨.and :: us ++ more, by simp, fun front hFront => ?_⟩
    rw [← List.append_assoc]
    exact hMore _ (hFront.and hUs)
  · exact takesMore_done hRead

theorem takesDerived_negation (h : Sound fuel) : TakesDerived .negation (negation (fuel + 1)) := by
  intro ts e rest hRead
  rw [Constraint.negation.eq_def] at hRead
  split at hRead
  · cases hRead
  · rename_i hFuel
    cases hFuel
    obtain ⟨⟨operand, behind⟩, hOperand, hResult⟩ := bind_eq_ok_iff.mp hRead
    cases hResult
    obtain ⟨front, rfl, hFront⟩ := h.negation _ _ _ hOperand
    exact ⟨.not :: front, rfl, hFront.not⟩
  · rename_i hFuel _
    cases hFuel
    obtain ⟨front, rfl, hFront⟩ := h.atom _ _ _ hRead
    exact ⟨front, rfl, hFront.atom⟩

theorem takesDerived_atom (h : Sound fuel) : TakesDerived .atom (atom (fuel + 1)) := by
  intro ts e rest hRead
  rw [Constraint.atom.eq_def] at hRead
  split at hRead
  · cases hRead
  · cases hRead
  · rename_i name ts _
    cases hRead
    exact ⟨[.tag name], rfl, .tag name⟩
  · rename_i hFuel
    cases hFuel
    obtain ⟨⟨inner, behind⟩, hInner, hResult⟩ := bind_eq_ok_iff.mp hRead
    obtain ⟨front, rfl, hFront⟩ := h.disjunction _ _ _ hInner
    split at hResult
    · rename_i hClose
      cases hResult
      cases hClose
      exact ⟨.open :: front ++ [.close], by simp, hFront.parens⟩
    · cases hResult
    · cases hResult
  · cases hRead

theorem sound (fuel : Nat) : Sound fuel := by
  induction fuel with
  | zero =>
    have hNone : ∀ rule, TakesDerived rule fun _ => .error .unexpectedEnd := fun _ _ _ _ h => nomatch h
    have hDone : ∀ rule, TakesMore rule fun left ts => .ok (left, ts) := fun _ _ _ _ _ h => takesMore_done h
    exact ⟨hNone _, hDone _, hNone _, hDone _, hNone _, hNone _⟩
  | succ fuel ih =>
    exact {
      disjunction := takesDerived_disjunction ih
      disjunctionTail := takesMore_disjunctionTail ih
      conjunction := takesDerived_conjunction ih
      conjunctionTail := takesMore_conjunctionTail ih
      negation := takesDerived_negation ih
      atom := takesDerived_atom ih }

end Soundness

section Completeness

theorem disjunctionTail_done (fuel : Nat) (e : Constraint) {rest : List Token} (h : rest.head? ≠ some .or) :
    disjunctionTail fuel e rest = .ok (e, rest) := by
  rw [disjunctionTail.eq_def]
  split
  · exact absurd rfl h
  · rfl

theorem conjunctionTail_done (fuel : Nat) (e : Constraint) {rest : List Token} (h : rest.head? ≠ some .and) :
    conjunctionTail fuel e rest = .ok (e, rest) := by
  rw [conjunctionTail.eq_def]
  split
  · exact absurd rfl h
  · rfl

/-- With four steps for each token the reader of the rule takes the tokens. That of a binary operator goes
on to look for more operands, with the fuel that is left. -/
def Reads : Rule → List Token → Constraint → Prop
  | .disjunction, ts, e => ∀ fuel rest, 4 * ts.length ≤ fuel → rest.head? ≠ some .and →
    ∃ left, fuel ≤ left + 4 * ts.length ∧ disjunction fuel (ts ++ rest) = disjunctionTail left e rest
  | .conjunction, ts, e => ∀ fuel rest, 4 * ts.length ≤ fuel + 1 →
    ∃ left, fuel + 1 ≤ left + 4 * ts.length ∧ conjunction fuel (ts ++ rest) = conjunctionTail left e rest
  | .negation, ts, e => ∀ fuel rest, 4 * ts.length ≤ fuel + 2 → negation fuel (ts ++ rest) = .ok (e, rest)
  | .atom, ts, e => ∀ fuel rest, 4 * ts.length ≤ fuel + 3 → atom fuel (ts ++ rest) = .ok (e, rest)

section

variable {ts us : List Token} {e f : Constraint}

theorem reads_or (hLeft : Reads .disjunction ts e) (hRight : Reads .conjunction us f) (hUs : 0 < us.length) :
    Reads .disjunction (ts ++ .or :: us) (.or e f) := by
  intro fuel rest hFuel hRest
  rw [List.length_append, List.length_cons] at hFuel ⊢
  obtain ⟨left, hLeftFuel, hReadLeft⟩ := hLeft fuel (.or :: (us ++ rest)) (by omega) (by simp)
  obtain ⟨left, rfl⟩ : ∃ n, left = n + 1 := Nat.exists_eq_succ_of_ne_zero (by omega)
  obtain ⟨more, -, hReadRight⟩ := hRight left rest (by omega)
  refine ⟨left, by omega, ?_⟩
  rw [List.append_assoc, List.cons_append, hReadLeft, disjunctionTail, hReadRight,
    conjunctionTail_done more f hRest]
  rfl

theorem reads_and (hLeft : Reads .conjunction ts e) (hRight : Reads .negation us f) :
    Reads .conjunction (ts ++ .and :: us) (.and e f) := by
  intro fuel rest hFuel
  rw [List.length_append, List.length_cons] at hFuel ⊢
  obtain ⟨left, hLeftFuel, hReadLeft⟩ := hLeft fuel (.and :: (us ++ rest)) (by omega)
  obtain ⟨left, rfl⟩ : ∃ n, left = n + 1 := Nat.exists_eq_succ_of_ne_zero (by omega)
  refine ⟨left, by omega, ?_⟩
  rw [List.append_assoc, List.cons_append, hReadLeft, conjunctionTail, hRight left rest (by omega)]
  rfl

theorem reads_conjunction (h : Reads .conjunction ts e) (hTs : 0 < ts.length) : Reads .disjunction ts e := by
  intro fuel rest hFuel hRest
  obtain ⟨fuel, rfl⟩ : ∃ n, fuel = n + 1 := Nat.exists_eq_succ_of_ne_zero (by omega)
  obtain ⟨left, -, hRead⟩ := h fuel rest hFuel
  refine ⟨fuel, by omega, ?_⟩
  rw [disjunction, hRead, conjunctionTail_done left e hRest]
  rfl

theorem reads_negation (h : Reads .negation ts e) (hTs : 0 < ts.length) : Reads .conjunction ts e := by
  intro fuel rest hFuel
  obtain ⟨fuel, rfl⟩ : ∃ n, fuel = n + 1 := Nat.exists_eq_succ_of_ne_zero (by omega)
  refine ⟨fuel, by omega, ?_⟩
  rw [conjunction, h fuel rest hFuel]
  rfl

theorem reads_not (h : Reads .negation ts e) : Reads .negation (.not :: ts) (.not e) := by
  intro fuel rest hFuel
  rw [List.length_cons] at hFuel
  obtain ⟨fuel, rfl⟩ : ∃ n, fuel = n + 1 := Nat.exists_eq_succ_of_ne_zero (by omega)
  rw [List.cons_append, negation, h fuel rest (by omega)]
  rfl

theorem reads_parens (h : Reads .disjunction ts e) : Reads .atom (.open :: ts ++ [.close]) e := by
  intro fuel rest hFuel
  rw [List.length_append, List.length_cons, List.length_singleton] at hFuel
  obtain ⟨fuel, rfl⟩ : ∃ n, fuel = n + 1 := Nat.exists_eq_succ_of_ne_zero (by omega)
  obtain ⟨left, -, hRead⟩ := h fuel (.close :: rest) (by omega) (by simp)
  rw [List.cons_append, List.cons_append, List.append_assoc, List.singleton_append, atom, hRead,
    disjunctionTail_done left e (by simp)]
  rfl

theorem reads_tag (name : Text) : Reads .atom [.tag name] (.tag name) := by
  intro fuel rest hFuel
  rw [List.length_singleton] at hFuel
  obtain ⟨fuel, rfl⟩ : ∃ n, fuel = n + 1 := Nat.exists_eq_succ_of_ne_zero (by omega)
  rfl

end

/-- An atom does not begin with a negation, so the reader of negations passes it on. -/
theorem head?_atom {ts : List Token} {e : Constraint} (h : Derives .atom ts e) : ts.head? ≠ some .not := by
  cases h <;> simp

theorem reads_atom {ts : List Token} {e : Constraint} (hAtom : Derives .atom ts e) (h : Reads .atom ts e) :
    Reads .negation ts e := by
  intro fuel rest hFuel
  have hTs := hAtom.length_pos
  obtain ⟨fuel, rfl⟩ : ∃ n, fuel = n + 1 := Nat.exists_eq_succ_of_ne_zero (by omega)
  obtain ⟨t, ts, rfl⟩ := List.exists_cons_of_length_pos hTs
  rw [List.cons_append, negation]
  · exact h fuel rest hFuel
  · rintro us hEq
    exact head?_atom hAtom (congrArg List.head? hEq)

theorem reads_of_derives {rule : Rule} {ts : List Token} {e : Constraint} (h : Derives rule ts e) :
    Reads rule ts e := by
  induction h with
  | or _ hRight ihLeft ihRight => exact reads_or ihLeft ihRight hRight.length_pos
  | conjunction h ih => exact reads_conjunction ih h.length_pos
  | and _ _ ihLeft ihRight => exact reads_and ihLeft ihRight
  | negation h ih => exact reads_negation ih h.length_pos
  | not _ ih => exact reads_not ih
  | atom h ih => exact reads_atom h ih
  | tag name => exact reads_tag name
  | parens _ ih => exact reads_parens ih

end Completeness

/-- A token sequence is read as the constraint that is derived from it, and as no other. -/
theorem ofTokens_eq_ok_iff (ts : List Token) (e : Constraint) :
    ofTokens ts = .ok e ↔ Derives .disjunction ts e := by
  rw [ofTokens.eq_def]
  split
  · exact iff_of_false (fun h => nomatch h) fun h => absurd h.length_pos (Nat.lt_irrefl 0)
  · rw [bind_eq_ok_iff]
    constructor
    · rintro ⟨⟨e', rest⟩, hRead, hResult⟩
      split at hResult
      · rename_i hEnd
        cases hResult
        cases hEnd
        obtain ⟨front, rfl, hFront⟩ := (sound _).disjunction _ _ _ hRead
        rwa [List.append_nil]
      · cases hResult
    · intro h
      obtain ⟨left, -, hRead⟩ := reads_of_derives h (fuelFor ts) [] (Nat.le_add_right _ _) (by simp)
      rw [List.append_nil, disjunctionTail_done left e (by simp)] at hRead
      exact ⟨(e, []), hRead, rfl⟩

theorem parse_eq_ok_iff_isWritten (t : Text) (e : Constraint) : parse t = .ok e ↔ IsWritten t e := by
  simp only [parse, bind_eq_ok_iff, tokens_eq_ok_iff, ofTokens_eq_ok_iff, IsWritten]

/-- A text is read as a constraint exactly if it spells tokens from which the constraint is derived. A text
that spells no such tokens is an error. -/
theorem parse_exact (t : Text) :
    (∀ e, parse t = .ok e ↔ IsWritten t e) ∧
      ((∃ cause, parse t = .error cause) ↔ ¬ ∃ e, IsWritten t e) := by
  refine ⟨parse_eq_ok_iff_isWritten t, ?_⟩
  rw [← exists_congr (parse_eq_ok_iff_isWritten t)]
  cases parse t <;> simp

end GoCommands.Constraint
