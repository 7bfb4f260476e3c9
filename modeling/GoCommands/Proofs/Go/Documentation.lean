import GoCommands.Go.DocComment
import GoCommands.Proofs.Go.Placement

/-! # Documentation of declarations

Line comments document a declaration if each has a row of its own and their rows stand directly above it. Above
these rows there is no row, an empty one or code.
-/

namespace GoCommands.Go

/-- The pieces of a row end with code, or with one comment behind code. -/
def EndsWithCode (row : List Piece) : Prop :=
  ∃ ps t, row = ps ++ [.token t] ∨ ∃ c, row = ps ++ [.token t] ++ [.trivia (.comment c)]

/-- The rows above a row, from the closest on, have one line comment each, and above them there is no row, an
empty row or one that ends with code. -/
def LinesAbove (rows : Nat → List Piece) : (row : Nat) → (closestFirst : List Text) → Prop
  | 0, [] => True
  | i + 1, [] => rows i = [] ∨ EndsWithCode (rows i)
  | 0, _ :: _ => False
  | i + 1, line :: more => rows i = [.lineComment line] ∧ LinesAbove rows i more

theorem LinesAbove.congr {rows rows' : Nat → List Piece} {row : Nat} {lines : List Text}
    (hRows : ∀ i < row, rows' i = rows i) (h : LinesAbove rows row lines) : LinesAbove rows' row lines := by
  induction row generalizing lines with
  | zero =>
    cases lines with
    | nil => trivial
    | cons => exact h
  | succ row ih =>
    have hRow := hRows row (Nat.lt_succ_self row)
    cases lines with
    | nil =>
      rw [LinesAbove, hRow]
      exact h
    | cons line more => exact ⟨hRow.trans h.1, ih (fun i hi => hRows i (Nat.lt_succ_of_lt hi)) h.2⟩

namespace DocComment

/-- What stands before an item: nothing at the start of the file, else pieces up to the last token. -/
inductive Leads : (follows : Bool) → List Piece → Prop
  | start : Leads false []
  | token (ps : List Piece) (t : Token) : Leads true (ps ++ [.token t])

/-- The pieces up to some trivia, which are in reverse order. -/
def upTo (front : List Piece) (ts : List Trivia) : List Piece := front ++ ts.reverse.map .trivia

section

variable {front : List Piece} {follows : Bool}

theorem upTo_cons (t : Trivia) (ts : List Trivia) : upTo front (t :: ts) = upTo front ts ++ [.trivia t] := by
  rw [upTo, List.reverse_cons, List.map_append, ← List.append_assoc]
  rfl

theorem breaksIn_upTo_cons (t : Trivia) (ts : List Trivia) :
    breaksIn (upTo front (t :: ts)) = breaksIn (upTo front ts) + t.text.count '\n' := by
  rw [upTo_cons, breaksIn_append, breaksIn_singleton]
  rfl

theorem onRow_upTo_blank (b : Text) (ts : List Trivia) :
    onRow (upTo front (.blank b :: ts)) = onRow (upTo front ts) := by
  funext i
  rw [upTo_cons, onRow_concat_blank]

theorem onRow_upTo_comment (c : Text) (ts : List Trivia) :
    onRow (upTo front (.comment c :: ts)) (breaksIn (upTo front (.comment c :: ts))) =
      onRow (upTo front ts) (breaksIn (upTo front (.comment c :: ts))) ++ [.trivia (.comment c)] := by
  rw [breaksIn_upTo_cons, upTo_cons]
  exact onRow_concat_last rfl

theorem append_token_ne_append_comment (ps qs : List Piece) (t : Token) (c : Text) :
    ps ++ [.token t] ≠ qs ++ [.trivia (.comment c)] := by
  intro h
  cases (List.append_inj_right' h rfl)

/-- The comment of the row above an empty row is the last piece so far, and nothing stands before it. -/
theorem eq_of_line_above {c line : Text} {ts : List Trivia} {i breaks : Nat}
    (hRow : i + 1 = breaksIn (upTo front (.comment c :: ts)) + breaks)
    (hClear : onRow (upTo front (.comment c :: ts)) (i + 1) = [])
    (hLine : onRow (upTo front (.comment c :: ts)) i = [.lineComment line])
    (hNoBreak : ∀ line, c = '/' :: '/' :: line → '\n' ∉ line) :
    c = '/' :: '/' :: line ∧ breaks = 1 ∧ i = breaksIn (upTo front ts) ∧ onRow (upTo front ts) i = [] := by
  have hLast := @onRow_upTo_comment front c ts
  obtain ⟨rfl, rfl⟩ := eq_lastRow hRow hClear (by rw [hLine]; exact List.cons_ne_nil _ _)
    (by rw [hLast]; exact List.concat_ne_nil _ _)
  have hOnly : _ ++ [_] = [] ++ [Piece.lineComment line] := hLast.symm.trans hLine
  obtain ⟨hAlone, hComment⟩ := List.append_inj' hOnly rfl
  cases hComment
  have hBreak : (Trivia.comment ('/' :: '/' :: line)).text.count '\n' = 0 := by
    rw [List.count_eq_zero]
    simpa [Trivia.text] using hNoBreak line rfl
  refine ⟨rfl, rfl, ?_, hAlone⟩
  rw [breaksIn_upTo_cons, hBreak, Nat.add_zero]

/-- Nothing is attached to an item that does not come first on its row. -/
theorem attachedFrom_eq_nil {ts : List Trivia} (h : onRow (upTo front ts) (breaksIn (upTo front ts)) ≠ []) :
    attachedFrom follows 0 ts = [] := by
  induction ts with
  | nil => rfl
  | cons trivia ts ih =>
    cases trivia with
    | blank b =>
      rw [onRow_upTo_blank, breaksIn_upTo_cons] at h
      have hLe := le_of_onRow_ne_nil h
      have hBreak : (Trivia.blank b).text.count '\n' = 0 := by omega
      rw [hBreak, Nat.add_zero] at h
      rw [attachedFrom, show b.count '\n' = 0 from hBreak]
      exact ih h
    | comment c => rfl

variable (hLeads : Leads follows front)
include hLeads

/-- A comment trails code if code is the last that its row has before it. -/
theorem trailsCode_iff (ts : List Trivia) : trailsCode follows ts ↔
    ∃ ps t, onRow (upTo front ts) (breaksIn (upTo front ts)) = ps ++ [.token t] := by
  induction ts with
  | nil =>
    rw [upTo, List.reverse_nil, List.map_nil, List.append_nil]
    cases hLeads with
    | start =>
      refine iff_of_false Bool.false_ne_true ?_
      rintro ⟨ps, t, h⟩
      exact List.concat_ne_nil _ ps h.symm
    | token ps t =>
      rw [breaksIn_append, breaksIn_singleton]
      exact iff_of_true rfl ⟨_, t, onRow_concat_last rfl⟩
  | cons trivia ts ih =>
    cases trivia with
    | blank b =>
      rw [onRow_upTo_blank, breaksIn_upTo_cons]
      have hTrails : trailsCode follows (.blank b :: ts) = (trailsCode follows ts && b.count '\n' == 0) := by
        rw [trailsCode, trailsCode, noComment, List.all_cons, breaksBefore, Bool.true_and, ← noComment]
        grind
      rw [hTrails]
      by_cases hBreak : b.count '\n' = 0
      · rw [Trivia.text, hBreak, beq_self_eq_true, Bool.and_true]
        exact ih
      · rw [beq_false_of_ne hBreak, Bool.and_false]
        refine iff_of_false Bool.false_ne_true ?_
        rintro ⟨ps, t, h⟩
        have hLe := le_of_onRow_ne_nil (h ▸ List.concat_ne_nil _ ps)
        rw [Trivia.text] at hLe
        omega
    | comment c =>
      rw [onRow_upTo_comment]
      refine iff_of_false (by simp [trailsCode, noComment]) ?_
      rintro ⟨ps, t, h⟩
      exact append_token_ne_append_comment _ _ t c h.symm

/-- With nothing to attach, a comment on the row above stands behind code and is left to this row. -/
theorem stops_at_comment {c : Text} {ts : List Trivia} {row breaks : Nat}
    (hRow : row = breaksIn (upTo front (.comment c :: ts)) + breaks)
    (hLines : LinesAbove (onRow (upTo front (.comment c :: ts))) row []) :
    (breaks != 1 || trailsCode follows ts) = true := by
  by_cases hNext : breaks = 1
  · obtain rfl := hNext
    have hLast := @onRow_upTo_comment front c ts
    rw [hRow, LinesAbove, hLast] at hLines
    rcases hLines with hNone | ⟨ps, t, hCode | ⟨d, hCode⟩⟩
    · exact absurd hNone (List.concat_ne_nil _ _)
    · exact absurd hCode.symm (append_token_ne_append_comment ps _ t c)
    · obtain ⟨hBefore, -⟩ := List.append_inj' hCode rfl
      have hLe := le_of_onRow_ne_nil (hBefore ▸ List.concat_ne_nil _ ps)
      rw [breaksIn_upTo_cons] at hLe hBefore
      have hSame : (Trivia.comment c).text.count '\n' = 0 := by omega
      rw [hSame, Nat.add_zero] at hBefore
      rw [(trailsCode_iff hLeads ts).mpr ⟨ps, t, hBefore⟩]
      rfl
  · rw [bne_iff_ne.mpr hNext]
    rfl

/-- Before all comments there is a token or nothing, so no comment is left for the rows above. -/
theorem eq_nil_of_linesAbove {lines : List Text} {row breaks : Nat}
    (hRow : row = breaksIn (upTo front []) + breaks) (hClear : onRow (upTo front []) row = [])
    (hLines : LinesAbove (onRow (upTo front [])) row lines) : lines = [] := by
  cases lines with
  | nil => rfl
  | cons line more =>
    cases row with
    | zero => cases hLines
    | succ i =>
      obtain ⟨hLine, -⟩ := hLines
      cases hLeads with
      | start => cases hLine
      | token ps t =>
        obtain ⟨qs, u, hLast⟩ := (trailsCode_iff (.token ps t) []).mp rfl
        obtain ⟨rfl, -⟩ := eq_lastRow hRow hClear (by rw [hLine]; exact List.cons_ne_nil _ _)
          (by rw [hLast]; exact List.concat_ne_nil _ qs)
        exact absurd (hLast.symm.trans hLine) (append_token_ne_append_comment qs [] u _)

/-- The comments of the rows directly above are attached, and no others. -/
theorem attachedFrom_eq {ts : List Trivia}
    (hComments : ∀ line, .comment ('/' :: '/' :: line) ∈ ts → '\n' ∉ line) {lines : List Text} {row breaks : Nat}
    (hRow : row = breaksIn (upTo front ts) + breaks) (hClear : onRow (upTo front ts) row = [])
    (hLines : LinesAbove (onRow (upTo front ts)) row lines) :
    attachedFrom follows breaks ts = lines.map fun line => '/' :: '/' :: line := by
  induction ts generalizing lines row breaks with
  | nil =>
    rw [eq_nil_of_linesAbove hLeads hRow hClear hLines]
    rfl
  | cons trivia ts ih =>
    have hRest : ∀ line, .comment ('/' :: '/' :: line) ∈ ts → '\n' ∉ line :=
      fun line hMem => hComments line (.tail trivia hMem)
    cases trivia with
    | blank b =>
      rw [breaksIn_upTo_cons, Nat.add_assoc, Nat.add_comm (List.count ..)] at hRow
      rw [onRow_upTo_blank] at hClear hLines
      exact ih hRest hRow hClear hLines
    | comment c =>
      rw [attachedFrom]
      cases lines with
      | nil => exact if_pos (stops_at_comment hLeads hRow hLines)
      | cons line more =>
        cases row with
        | zero => cases hLines
        | succ i =>
          obtain ⟨hLine, hMore⟩ := hLines
          obtain ⟨rfl, rfl, rfl, hAlone⟩ := eq_of_line_above hRow hClear hLine
            fun line hComment => hComments line (hComment ▸ .head ts)
          have hTrails : trailsCode follows ts = false := by
            rw [Bool.eq_false_iff, Ne, trailsCode_iff hLeads ts, hAlone]
            rintro ⟨ps, t, h⟩
            exact List.concat_ne_nil _ ps h.symm
          have hCongr : ∀ j < breaksIn (upTo front ts), onRow (upTo front ts) j =
              onRow (upTo front (.comment ('/' :: '/' :: line) :: ts)) j := by
            intro j hj
            rw [upTo_cons, onRow_append_of_lt _ hj]
          rw [hTrails, if_neg (by decide), ih hRest (Nat.add_zero _).symm hAlone (hMore.congr hCongr)]
          rfl

end

/-- The text behind the slashes, without one blank at the start and white space at the end. -/
def lineText (line : Text) : Text :=
  Text.trimEnd (match line with
    | ' ' :: rest => rest
    | _ => line)

def ofLines (lines : List Text) : Option Text :=
  let doc := Text.trim (Text.joinWith ['\n'] ((lines.filter fun line => !isDirective line).map lineText))
  if doc.isEmpty then none else some doc

theorem ofComments_lines (lines : List Text) :
    ofComments (lines.map fun line => '/' :: '/' :: line) = ofLines lines := by
  have hLines : (lines.map fun line => '/' :: '/' :: line).flatMap linesOf =
      (lines.filter fun line => !isDirective line).map lineText := by
    induction lines with
    | nil => rfl
    | cons line lines ih =>
      have hLine : linesOf ('/' :: '/' :: line) = if isDirective line then [] else [lineText line] := rfl
      rw [List.map_cons, List.flatMap_cons, ih, hLine, List.filter_cons]
      cases isDirective line <;> rfl
  rw [ofComments, hLines]
  rfl

end DocComment

/-- The pieces of a source before the first token of an item that is read from a place in it. -/
def piecesBefore (ls start : Input) : List Piece :=
  pieces (Reader.consumed ls start) ++ start.head?.elim [] fun l => l.before.map .trivia

namespace Grammar.IsPlace

variable {ls start : Input} {item : Item} (h : IsPlace ls item start)
include h

theorem consumed_append : Reader.consumed ls start ++ start = ls := by
  obtain ⟨front, rfl⟩ := h.suffix
  rw [Reader.consumed, List.length_append, Nat.add_sub_cancel, List.take_left]

theorem leads : DocComment.Leads item.follows (pieces (Reader.consumed ls start)) := by
  have hWhole := h.consumed_append
  cases hFollows : item.follows with
  | false =>
    have hStart : start = ls := by
      by_contra hNe
      rw [h.follows_iff.mpr hNe] at hFollows
      cases hFollows
    rw [hStart, Reader.consumed, Nat.sub_self]
    exact .start
  | true =>
    have hFront : Reader.consumed ls start ≠ [] := by
      intro hNil
      rw [hNil] at hWhole
      exact h.follows_iff.mp hFollows hWhole
    rw [← List.dropLast_concat_getLast hFront, pieces, List.flatMap_append, List.flatMap_singleton, Lexeme.pieces,
      ← List.append_assoc]
    exact .token _ _

theorem piecesBefore_eq :
    piecesBefore ls start = DocComment.upTo (pieces (Reader.consumed ls start)) item.before.reverse := by
  obtain ⟨l, rest, rfl, hBefore⟩ := h.exists_cons
  rw [hBefore, DocComment.upTo, List.reverse_reverse]
  rfl

theorem exists_pieces_eq : ∃ behind, pieces ls = piecesBefore ls start ++ behind := by
  obtain ⟨l, rest, rfl, -⟩ := h.exists_cons
  refine ⟨.token l.token :: pieces rest, ?_⟩
  have hPieces := congrArg pieces h.consumed_append
  rw [pieces, List.flatMap_append, List.flatMap_cons, Lexeme.pieces, List.append_assoc, ← List.append_assoc] at hPieces
  exact hPieces.symm

theorem mem_lexemes {c : Trivia} (hc : c ∈ item.before) : ∃ l ∈ ls, c ∈ l.before := by
  obtain ⟨l, rest, rfl, hBefore⟩ := h.exists_cons
  exact ⟨l, h.suffix.subset (.head rest), hBefore ▸ hc⟩

theorem doc_eq (hComments : ∀ l ∈ ls, ∀ line, .comment ('/' :: '/' :: line) ∈ l.before → '\n' ∉ line)
    {lines : List Text}
    (hLines : LinesAbove (onRow (pieces ls)) (breaksIn (piecesBefore ls start)) lines.reverse) :
    item.doc = if onRow (piecesBefore ls start) (breaksIn (piecesBefore ls start)) = [] then
      DocComment.ofLines lines else Option.none := by
  obtain ⟨behind, hPieces⟩ := h.exists_pieces_eq
  have hAbove : ∀ i < breaksIn (piecesBefore ls start),
      onRow (piecesBefore ls start) i = onRow (pieces ls) i := by
    intro i hi
    rw [hPieces, onRow_append_of_lt _ hi]
  have hLines := hLines.congr hAbove
  rw [h.piecesBefore_eq] at hLines ⊢
  rw [Item.doc, DocComment.attached]
  split
  · rename_i hClear
    have hTexts : ∀ line, .comment ('/' :: '/' :: line) ∈ item.before.reverse → '\n' ∉ line := by
      intro line hMem
      obtain ⟨l, hl, hMem⟩ := h.mem_lexemes (List.mem_reverse.mp hMem)
      exact hComments l hl line hMem
    rw [DocComment.attachedFrom_eq h.leads hTexts (Nat.add_zero _).symm hClear hLines, List.map_reverse,
      List.reverse_reverse, DocComment.ofComments_lines]
  · rename_i hOther
    rw [DocComment.attachedFrom_eq_nil hOther]
    rfl

end Grammar.IsPlace

/-- Every item of a source file has the documentation of the line comments on the rows directly above it, if it
comes first on its own row, and none otherwise. -/
theorem doc_of_linesAbove {source : Text} {f : SourceFile} (hParse : SourceFile.parse source = some f) :
    ∃ ls items, lexemes source = some ls ∧ (pieces ls).flatMap Piece.text = withoutMark source ∧
      SourceFile.placedItems ls = some items ∧ f.items = items.map Prod.fst ∧
      ∀ item start, (item, start) ∈ items → ∀ lines : List Text,
        LinesAbove (onRow (pieces ls)) (breaksIn (piecesBefore ls start)) lines.reverse →
        item.doc = if onRow (piecesBefore ls start) (breaksIn (piecesBefore ls start)) = [] then
          DocComment.ofLines lines else none := by
  obtain ⟨ls, items, hLexemes, hItems, hFile⟩ := SourceFile.exists_placedItems_of_parse hParse
  refine ⟨ls, items, hLexemes, ?_, hItems, hFile, fun item start hItem lines hLines => ?_⟩
  · rw [text_pieces, textOf_lexemes hLexemes]
  · exact (SourceFile.isPlace_of_placedItems hItems hItem).doc_eq
      (fun l hl line hMem => newline_not_mem_of_lexemes hLexemes hl hMem) hLines

/-- Three rows of comments, one of them a directive, below a comment that trails code. -/
def countSource : Text :=
  "package a\n\nvar x int // Size.\n// Count counts\n//go:noinline\n// all rows.\nfunc Count() {}\n".toList

def countLexemes : List Lexeme := (lexemes countSource).getD []

theorem read_countSource : lexemes countSource = some countLexemes ∧
    ((SourceFile.placedItems countLexemes).bind fun items =>
      items[2]?.map fun placed => (placed.1.declaration.word?, placed.2)) =
      some (some "Count".toList, countLexemes.drop 5) := by
  decide +kernel

theorem rows_countSource : breaksIn (piecesBefore countLexemes (countLexemes.drop 5)) = 6 ∧
    onRow (piecesBefore countLexemes (countLexemes.drop 5)) 6 = [] ∧
    onRow (pieces countLexemes) 5 = [.lineComment " all rows.".toList] ∧
    onRow (pieces countLexemes) 4 = [.lineComment "go:noinline".toList] ∧
    onRow (pieces countLexemes) 3 = [.lineComment " Count counts".toList] ∧
    onRow (pieces countLexemes) 2 = [.token (.keyword .var), .token (.word ['x'])] ++
      [.token (.word "int".toList)] ++ [.trivia (.comment "// Size.".toList)] := by
  decide +kernel

theorem doc_of_linesAbove_countSource : ∃ f, SourceFile.parse countSource = some f ∧ ∃ item ∈ f.items,
    item.declaration.word? = some "Count".toList ∧ item.doc = some "Count counts\nall rows.".toList := by
  obtain ⟨hLexemes, hRead⟩ := read_countSource
  obtain ⟨hRow, hClear, hLast, hMiddle, hFirst, hCode⟩ := rows_countSource
  obtain ⟨items, hItems, hItem⟩ := Option.bind_eq_some_iff.mp hRead
  obtain ⟨⟨item, start⟩, hItem, hPlaced⟩ := Option.map_eq_some_iff.mp hItem
  obtain ⟨hName, rfl⟩ := Prod.mk.inj hPlaced
  have hParse : SourceFile.parse countSource = some ⟨items.map Prod.fst⟩ := by
    rw [SourceFile.parse_eq_map hLexemes, hItems]
    rfl
  obtain ⟨ls, items', hLexemes', -, hItems', -, hDoc⟩ := doc_of_linesAbove hParse
  obtain rfl := Option.some.inj (hLexemes.symm.trans hLexemes')
  obtain rfl := Option.some.inj (hItems.symm.trans hItems')
  have hMem : (item, countLexemes.drop 5) ∈ items := List.mem_of_getElem? hItem
  refine ⟨_, hParse, item, List.mem_map_of_mem hMem, hName, ?_⟩
  rw [hDoc item _ hMem [" Count counts".toList, "go:noinline".toList, " all rows.".toList]]
  · rw [hRow, if_pos hClear]
    decide
  · rw [hRow]
    exact ⟨hLast, hMiddle, hFirst, .inr ⟨_, _, .inr ⟨_, hCode⟩⟩⟩

/-- A declaration behind another one on its row. -/
def behindSource : Text := "package a\n\n// Doc\nvar x int; func F() {}\n".toList

def behindLexemes : List Lexeme := (lexemes behindSource).getD []

theorem read_behindSource : lexemes behindSource = some behindLexemes ∧
    ((SourceFile.placedItems behindLexemes).bind fun items =>
      items[2]?.map fun placed => ((placed.1.declaration.word?, placed.1.doc), placed.2)) =
      some ((some ['F'], none), behindLexemes.drop 6) ∧
    breaksIn (piecesBefore behindLexemes (behindLexemes.drop 6)) = 3 ∧
    onRow (pieces behindLexemes) 2 = [.lineComment " Doc".toList] ∧ onRow (pieces behindLexemes) 1 = [] := by
  decide +kernel

/-- A line comment on the row above does not document what comes second on its own row. -/
theorem exists_undocumented : ∃ (source : Text) (f : SourceFile) (ls : List Lexeme) (items : List (Item × Input))
    (item : Item) (start : Input) (line : Text), SourceFile.parse source = some f ∧ lexemes source = some ls ∧
      SourceFile.placedItems ls = some items ∧ f.items = items.map Prod.fst ∧ (item, start) ∈ items ∧
      item.declaration.word? = some ['F'] ∧
      LinesAbove (onRow (pieces ls)) (breaksIn (piecesBefore ls start)) [line] ∧
      DocComment.ofLines [line] ≠ item.doc := by
  obtain ⟨hLexemes, hRead, hRow, hLine, hBlank⟩ := read_behindSource
  obtain ⟨items, hItems, hItem⟩ := Option.bind_eq_some_iff.mp hRead
  obtain ⟨⟨item, start⟩, hItem, hPlaced⟩ := Option.map_eq_some_iff.mp hItem
  obtain ⟨hPlaced, rfl⟩ := Prod.mk.inj hPlaced
  obtain ⟨hName, hDoc⟩ := Prod.mk.inj hPlaced
  have hParse : SourceFile.parse behindSource = some ⟨items.map Prod.fst⟩ := by
    rw [SourceFile.parse_eq_map hLexemes, hItems]
    rfl
  refine ⟨_, _, _, items, item, _, " Doc".toList, hParse, hLexemes, hItems, rfl, List.mem_of_getElem? hItem, hName,
    ?_, ?_⟩
  · rw [hRow]
    exact ⟨hLine, .inl hBlank⟩
  · rw [hDoc]
    decide

end GoCommands.Go
