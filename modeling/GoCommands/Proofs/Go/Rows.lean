import GoCommands.Proofs.Go.Lossless

/-! # Rows of a source

The pieces of a source are its tokens and what stands between them. A row has the pieces that stand on it,
wholly or in part, except white space.
-/

namespace GoCommands.Go

inductive Piece where
  | trivia (t : Trivia)
  | token (t : Token)
deriving DecidableEq, Repr

namespace Piece

def text : Piece → Text
  | trivia t => t.text
  | token t => t.text

def breaks (p : Piece) : Nat := p.text.count '\n'

def isVisible : Piece → Bool
  | trivia (.blank _) => false
  | _ => true

/-- A comment behind two slashes. -/
def lineComment (line : Text) : Piece := .trivia (.comment ('/' :: '/' :: line))

end Piece

def Lexeme.pieces (l : Lexeme) : List Piece := l.before.map .trivia ++ [.token l.token]

def pieces (ls : List Lexeme) : List Piece := ls.flatMap Lexeme.pieces

def breaksIn (ps : List Piece) : Nat := (ps.flatMap Piece.text).count '\n'

/-- The pieces on a row, if the first piece starts on row `start`. -/
def rowFrom (i : Nat) : (start : Nat) → List Piece → List Piece
  | _, [] => []
  | start, p :: ps =>
    let more := rowFrom i (start + p.breaks) ps
    if p.isVisible && decide (start ≤ i) && decide (i ≤ start + p.breaks) then p :: more else more

/-- The pieces on a row of a source; the first row is 0. -/
def onRow (ps : List Piece) (i : Nat) : List Piece := rowFrom i 0 ps

theorem text_pieces (ls : List Lexeme) : (pieces ls).flatMap Piece.text = textOf ls := by
  induction ls with
  | nil => rfl
  | cons l ls ih =>
    rw [textOf] at ih ⊢
    rw [pieces, List.flatMap_cons, List.flatMap_append, ← pieces, ih, List.flatMap_cons, Lexeme.pieces,
      List.flatMap_append, List.flatMap_map, List.flatMap_singleton]
    rfl

theorem breaksIn_append (ps qs : List Piece) : breaksIn (ps ++ qs) = breaksIn ps + breaksIn qs := by
  rw [breaksIn, List.flatMap_append, List.count_append]
  rfl

theorem breaksIn_singleton (p : Piece) : breaksIn [p] = p.breaks := by
  rw [breaksIn, List.flatMap_singleton]
  rfl

theorem breaksIn_cons (p : Piece) (ps : List Piece) : breaksIn (p :: ps) = p.breaks + breaksIn ps := by
  rw [← List.singleton_append, breaksIn_append, breaksIn_singleton]

section

variable (i : Nat) (ps qs : List Piece)

theorem rowFrom_append (start : Nat) :
    rowFrom i start (ps ++ qs) = rowFrom i start ps ++ rowFrom i (start + breaksIn ps) qs := by
  induction ps generalizing start with
  | nil => rfl
  | cons p ps ih =>
    rw [List.cons_append, rowFrom, rowFrom, ih, breaksIn_cons, Nat.add_assoc]
    split <;> rfl

variable {i}

theorem rowFrom_eq_nil_of_lt {start : Nat} (h : i < start) : rowFrom i start ps = [] := by
  induction ps generalizing start with
  | nil => rfl
  | cons p ps ih =>
    rw [rowFrom, ih (Nat.lt_add_right _ h), decide_eq_false (Nat.not_le.mpr h), Bool.and_false, Bool.false_and]
    rfl

theorem rowFrom_eq_nil_of_gt {start : Nat} (h : start + breaksIn ps < i) : rowFrom i start ps = [] := by
  induction ps generalizing start with
  | nil => rfl
  | cons p ps ih =>
    rw [breaksIn_cons, ← Nat.add_assoc] at h
    rw [rowFrom, ih h, decide_eq_false (Nat.not_le.mpr (Nat.lt_of_le_of_lt (Nat.le_add_right _ _) h)),
      Bool.and_false]
    rfl

variable {ps}

/-- Later pieces leave the rows above the last one as they are. -/
theorem onRow_append_of_lt (h : i < breaksIn ps) : onRow (ps ++ qs) i = onRow ps i := by
  rw [onRow, rowFrom_append, rowFrom_eq_nil_of_lt qs (by rwa [Nat.zero_add]), List.append_nil]
  rfl

theorem le_of_onRow_ne_nil (h : onRow ps i ≠ []) : i ≤ breaksIn ps := by
  by_contra hGt
  exact h (rowFrom_eq_nil_of_gt ps (by rw [Nat.zero_add]; exact Nat.lt_of_not_le hGt))

theorem onRow_concat (p : Piece) : onRow (ps ++ [p]) i = onRow ps i ++
    if p.isVisible && decide (breaksIn ps ≤ i) && decide (i ≤ breaksIn ps + p.breaks) then [p] else [] := by
  rw [onRow, rowFrom_append, Nat.zero_add]
  rfl

theorem onRow_concat_blank (t : Text) : onRow (ps ++ [.trivia (.blank t)]) i = onRow ps i := by
  rw [onRow_concat]
  exact List.append_nil _

/-- The last piece stands on the last row. -/
theorem onRow_concat_last {p : Piece} (h : p.isVisible) :
    onRow (ps ++ [p]) (breaksIn ps + p.breaks) = onRow ps (breaksIn ps + p.breaks) ++ [p] := by
  rw [onRow_concat, h, decide_eq_true (Nat.le_add_right _ _), decide_eq_true (Nat.le_refl _)]
  rfl

/-- Where a row has nothing, and a row with something stands directly above it, the latter is the last row. -/
theorem eq_lastRow {breaks : Nat} (hRow : i + 1 = breaksIn ps + breaks)
    (hClear : onRow ps (i + 1) = []) (hAbove : onRow ps i ≠ []) (hLast : onRow ps (breaksIn ps) ≠ []) :
    i = breaksIn ps ∧ breaks = 1 := by
  have hLe := le_of_onRow_ne_nil hAbove
  have hNe : breaksIn ps ≠ i + 1 := by
    intro hSame
    rw [hSame] at hLast
    exact hLast hClear
  omega

end

end GoCommands.Go
