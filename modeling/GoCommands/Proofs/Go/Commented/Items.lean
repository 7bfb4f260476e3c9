import GoCommands.Proofs.Go.Commented.Statements
import GoCommands.Proofs.Go.Placement

/-! # Declarations and comments

The declarations of a source do not change with a comment between two of its tokens, apart from the source texts
and the comments that types keep. A comment that is not in front of a declaration is not in its documentation.
-/

namespace GoCommands.Go

open Reader

structure FunctionDecl.Commented (c : Text) (f f' : FunctionDecl) : Prop where
  name : f'.name = f.name
  signature : Signature.Commented c f.signature f'.signature

structure MethodDecl.Commented (c : Text) (m m' : MethodDecl) : Prop where
  receiver : List.Forall₂ (Parameter.Commented c) m.receiver m'.receiver
  name : m'.name = m.name
  signature : Signature.Commented c m.signature m'.signature
  body : Option.Rel (List.Forall₂ (Statement.Commented c)) m.body m'.body

inductive Declaration.Commented (c : Text) : Declaration → Declaration → Prop
  | package (name : Text) : Commented c (.package name) (.package name)
  | imports (specs : List ImportSpec) : Commented c (.imports specs) (.imports specs)
  | function {f f' : FunctionDecl} (h : FunctionDecl.Commented c f f') : Commented c (.function f) (.function f')
  | method {m m' : MethodDecl} (h : MethodDecl.Commented c m m') : Commented c (.method m) (.method m')
  | types {specs specs' : List TypeSpec} (h : List.Forall₂ (TypeSpec.Commented c) specs specs') :
      Commented c (.types specs) (.types specs')
  | other : Commented c .other .other

namespace Grammar

variable {c : Text} {input input' rest rest' : Input}

theorem ofDepth_blind (c : Text) (depth : Nat) : (ofDepth depth).Blind c := by
  induction depth with
  | zero => exact ⟨fun _ _ _ _ => .none, fun _ _ _ _ => .none, fun _ _ _ => .none, fun _ _ _ => .none,
      fun _ _ _ => .none, fun _ _ _ => .none⟩
  | succ depth ih =>
    exact {
      type := typeStep_blind ih
      expr := exprStep_blind ih
      block := blockStep_blind ih
      statement := statementStep_blind ih
      conditional := conditionalStep_blind ih
      literalValue := literalValueStep_blind ih }

theorem importSpec_blind : Reader.Blind c Eq importSpec := by
  intro input input' h
  have hNamed : ∀ {rest rest'} (name : ImportName), Input.Commented c rest rest' →
      Alike c Eq (importSpec.named name rest) (importSpec.named name rest') := by
    intro rest rest' name hRest
    refine (stringLiteral_alike hRest).bind ?_
    rintro path _ rest rest' rfl hRest
    exact .some ⟨rfl, hRest⟩
  rw [importSpec, importSpec]
  refine rel_elim (symbol_alike h .dot) ?_ fun hRest => ?_
  · refine (word_alike h).elim ?_ ?_
    · exact hNamed .none h
    · rintro id _ rest rest' rfl hRest
      exact hNamed _ hRest
  · exact hNamed .dot hRest

theorem importSpecs_blind : Reader.Blind c Eq importSpecs := by
  intro input input' h
  rw [importSpecs, importSpecs]
  refine rel_elim (symbol_alike h .parenOpen) ?_ fun hRest => ?_
  · refine (importSpec_blind h).bind ?_
    rintro spec _ rest rest' rfl hRest
    exact .some ⟨rfl, hRest⟩
  · dsimp only
    rw [hRest.length_eq]
    exact (terminated_blind importSpec_blind false .parenClose _ hRest).mono
      fun _ _ hSpecs => List.forall₂_eq_eq_eq ▸ hSpecs

variable {g : Grammar} (hG : g.Blind c)
include hG

theorem body?_blind : Reader.Blind c (Option.Rel (List.Forall₂ (Statement.Commented c))) g.body? := by
  intro input input' h
  refine rel_ite (isAhead_eq h .braceOpen true) ?_ (.some ⟨.none, h⟩)
  exact (hG.block h).bind fun hList hRest => .some ⟨.some hList, hRest⟩

theorem function_blind : Reader.Blind c (Declaration.Commented c) g.function := by
  intro input input' h
  refine (word_alike h).bind ?_
  rintro name _ rest rest' rfl hRest
  have hSignature : ∀ {rest rest'}, Input.Commented c rest rest' → Alike c (Declaration.Commented c)
      ((g.signature true rest).bind fun r => (g.body? r.2).bind fun last => some (.function ⟨name, r.1⟩, last.2))
      ((g.signature true rest').bind fun r => (g.body? r.2).bind fun last =>
        some (.function ⟨name, r.1⟩, last.2)) := by
    intro rest rest' hRest
    refine (signature_blind hG true hRest).bind fun hSignature hRest => ?_
    exact (body?_blind hG hRest).bind fun _ hBehind => .some ⟨.function ⟨rfl, hSignature⟩, hBehind⟩
  refine rel_ite (isAhead_eq hRest .bracketOpen false) ?_ (hSignature hRest)
  exact rel_bind (typeParameters_blind hG hRest).rest hSignature

theorem method_blind : Reader.Blind c (Declaration.Commented c) g.method := by
  intro input input' h
  refine (parameters_blind hG h).bind fun hReceiver hRest => ?_
  refine (word_alike hRest).bind ?_
  rintro name _ rest rest' rfl hRest
  refine (signature_blind hG true hRest).bind fun hSignature hRest => ?_
  refine (body?_blind hG hRest).bind fun hBody hBehind => ?_
  exact .some ⟨.method ⟨hReceiver, rfl, hSignature, hBody⟩, hBehind⟩

theorem isMethodAhead_eq (h : Input.Commented c input input') : g.isMethodAhead input' = g.isMethodAhead input := by
  have hName : Alike c Eq ((g.parameters input).bind fun r => word r.2) ((g.parameters input').bind fun r => word r.2) :=
    (parameters_blind hG h).bind fun _ hRest => word_alike hRest
  rw [isMethodAhead, isMethodAhead]
  refine hName.elim ?_ fun _ hRest => ?_
  · rfl
  · exact isAhead_eq hRest .parenOpen false

/-- What the reader of items gives: a declaration, and whether it may end the file. -/
theorem item_blind : Reader.Blind c (fun d d' => Declaration.Commented c d.1 d'.1 ∧ d'.2 = d.2) g.item := by
  intro input input' h
  have hStatement : Alike c (fun d d' => Declaration.Commented c d.1 d'.1 ∧ d'.2 = d.2)
      (item.statement g input) (item.statement g input') := by
    refine (hG.statement h).bind ?_
    rintro ⟨s, last⟩ ⟨s', last'⟩ rest rest' ⟨hStatement, rfl⟩ hRest
    cases hStatement with
    | return_ values => exact .some ⟨⟨.other, rfl⟩, hRest⟩
    | types hSpecs => exact .some ⟨⟨.types hSpecs, rfl⟩, hRest⟩
    | other => exact .some ⟨⟨.other, rfl⟩, hRest⟩
  obtain ⟨rfl, rfl⟩ | ⟨before, before', token, rest, rest', rfl, rfl, hRest⟩ := commented_cases h
  · exact hStatement
  · cases token with
    | keyword k =>
      cases k with
      | package =>
        refine (word_alike hRest).bind ?_
        rintro name _ rest rest' rfl hBehind
        exact .some ⟨⟨.package name, rfl⟩, hBehind⟩
      | import_ =>
        refine (importSpecs_blind hRest).bind ?_
        rintro specs _ rest rest' rfl hBehind
        exact .some ⟨⟨.imports specs, rfl⟩, hBehind⟩
      | func =>
        rw [item, item, isMethodAhead_eq hG hRest]
        refine Alike.elim (rel_or (function_blind hG hRest) (method_blind hG hRest)) ?_ fun hDeclaration hBehind => ?_
        · exact rel_ite rfl .none hStatement
        · exact .some ⟨⟨hDeclaration, rfl⟩, hBehind⟩
      | _ => exact hStatement
    | _ => exact hStatement

/-- An item at its place, and the same with the comment. -/
structure PlacedCommented (c : Text) (p p' : Item × Input) : Prop where
  follows : p'.1.follows = p.1.follows
  declaration : Declaration.Commented c p.1.declaration p'.1.declaration
  place : Input.Commented c p.2 p'.2

theorem placedItemsOf_alike (fuel : Nat) (follows : Bool) (h : Input.Commented c input input') :
    Option.Rel (List.Forall₂ (PlacedCommented c)) (g.placedItemsOf fuel follows input)
      (g.placedItemsOf fuel follows input') := by
  induction fuel generalizing follows input input' with
  | zero => exact .none
  | succ fuel ih =>
    have hInput := h
    cases h with
    | nil => exact .none
    | cons hl hRest =>
      rw [placedItemsOf, placedItemsOf, hl.token]
      refine rel_ite rfl (.some .nil) ?_
      refine (item_blind hG hInput).bind ?_
      rintro ⟨declaration, last⟩ ⟨declaration', last'⟩ behind behind' ⟨hDeclaration, rfl⟩ hBehind
      dsimp only
      rw [ahead_eq hBehind]
      refine rel_elim (terminator_alike hBehind) ?_ fun hNext => ?_
      · exact rel_ite rfl (.some (.cons ⟨rfl, hDeclaration, hInput⟩ .nil)) .none
      · exact rel_bind (ih true hNext) fun hMore => .some (.cons ⟨rfl, hDeclaration, hInput⟩ hMore)

end Grammar

theorem SourceFile.placedItems_alike {c : Text} {ls ls' : List Lexeme} (h : Input.Commented c ls ls') :
    Option.Rel (List.Forall₂ (Grammar.PlacedCommented c)) (placedItems ls) (placedItems ls') := by
  rw [placedItems, placedItems, h.length_eq]
  exact Grammar.placedItemsOf_alike (Grammar.ofDepth_blind c _) _ false h

/-- The second trivia are the first ones with the comment `c` at one place. White space is cut in two if the
comment is inside. -/
inductive Trivia.Inserted (c : Text) : List Trivia → List Trivia → Prop
  | between (before behind : List Trivia) : Inserted c (before ++ behind) (before ++ .comment c :: behind)
  | within (before behind : List Trivia) (left right : Text) :
      Inserted c (before ++ .blank (left ++ right) :: behind)
        (before ++ .blank left :: .comment c :: .blank right :: behind)

namespace Lexeme

theorem onNewLine_append (before behind : List Trivia) (token : Token) :
    onNewLine ⟨before ++ behind, token⟩ = (onNewLine ⟨before, token⟩ || onNewLine ⟨behind, token⟩) :=
  List.any_append

theorem firstComment_append (before behind : List Trivia) (token : Token) :
    firstComment ⟨before ++ behind, token⟩ = (firstComment ⟨before, token⟩).or (firstComment ⟨behind, token⟩) :=
  List.findSome?_append

theorem infix_text {l : Lexeme} {c : Text} (h : .comment c ∈ l.before) : c <:+: l.text := by
  obtain ⟨before, behind, hSplit⟩ := List.append_of_mem h
  refine ⟨before.flatMap Trivia.text, behind.flatMap Trivia.text ++ l.token.text, ?_⟩
  simp [Lexeme.text, hSplit, Trivia.text]

theorem commented_of_append (before : List Trivia) {behind behind' : List Trivia} {token : Token} {c : Text}
    (hLine : onNewLine ⟨behind', token⟩ = onNewLine ⟨behind, token⟩)
    (hFirst : firstComment ⟨behind', token⟩ = some c) (hMem : .comment c ∈ behind') :
    Commented c ⟨before ++ behind, token⟩ ⟨before ++ behind', token⟩ := by
  refine ⟨rfl, ?_, ?_, .inr (infix_text (List.mem_append_right _ hMem))⟩
  · rw [onNewLine_append, onNewLine_append, hLine]
  · rw [NoteCommented, firstComment_append, firstComment_append, hFirst]
    cases firstComment ⟨before, token⟩ with
    | none => exact .inr rfl
    | some note => exact .inl rfl

theorem commented_of_inserted {before before' : List Trivia} {c : Text} (h : Trivia.Inserted c before before')
    (token : Token) : Commented c ⟨before, token⟩ ⟨before', token⟩ := by
  cases h with
  | between before behind => exact commented_of_append before rfl rfl List.mem_cons_self
  | within before behind left right =>
    refine commented_of_append before ?_ rfl (List.mem_cons_of_mem _ List.mem_cons_self)
    simp [onNewLine, Bool.or_assoc]

end Lexeme

/-- Lexemes at places of the same distance from the end are the same, except at the one that is replaced. -/
theorem eq_of_suffix {pre post rest rest' : List Lexeme} {l l' x x' : Lexeme} (hPlace : x :: rest <:+ pre ++ l :: post)
    (hPlace' : x' :: rest' <:+ pre ++ l' :: post) (hLength : rest'.length = rest.length)
    (hOther : x :: rest ≠ l :: post) : x' = x := by
  obtain ⟨front, hFront⟩ := hPlace
  obtain ⟨front', hFront'⟩ := hPlace'
  rcases List.append_eq_append_iff.mp hFront with ⟨between, rfl, hBetween⟩ | ⟨between, rfl, hBetween⟩
  · cases between with
    | nil => exact absurd hBetween hOther
    | cons y between =>
      obtain ⟨rfl, rfl⟩ := List.cons.inj hBetween
      rw [List.append_assoc] at hFront'
      have hEnd := List.append_inj_right' hFront' (by simp [hLength])
      exact (List.cons.inj hEnd).1
  · cases between with
    | nil => exact absurd hBetween.symm hOther
    | cons y between =>
      obtain ⟨rfl, rfl⟩ := List.cons.inj hBetween
      have hFront' : front' ++ x' :: rest' = (pre ++ l' :: between) ++ x :: rest := by simpa using hFront'
      have hEnd := List.append_inj_right' hFront' (by simp [hLength])
      exact (List.cons.inj hEnd).1

/-- The second source is the first one with the comment `c` between two of its tokens, and not in front of a
declaration. -/
def InsertedInside (c source source' : Text) : Prop :=
  ∃ (pre post : List Lexeme) (before before' : List Trivia) (token : Token),
    lexemes source = some (pre ++ ⟨before, token⟩ :: post) ∧
    lexemes source' = some (pre ++ ⟨before', token⟩ :: post) ∧
    Trivia.Inserted c before before' ∧
    ∀ items ∈ SourceFile.placedItems (pre ++ ⟨before, token⟩ :: post), ∀ placed ∈ items,
      placed.2 ≠ ⟨before, token⟩ :: post

theorem InsertedInside.exists_append {c source source' : Text} (h : InsertedInside c source source') :
    ∃ front back, withoutMark source = front ++ back ∧ withoutMark source' = front ++ c ++ back := by
  obtain ⟨pre, post, before, before', token, hLexemes, hLexemes', hInserted, -⟩ := h
  rw [← textOf_lexemes hLexemes, ← textOf_lexemes hLexemes']
  cases hInserted with
  | between before behind =>
    refine ⟨textOf pre ++ before.flatMap Trivia.text, behind.flatMap Trivia.text ++ token.text ++ textOf post, ?_, ?_⟩
    all_goals simp [textOf, Lexeme.text, Trivia.text]
  | within before behind left right =>
    refine ⟨textOf pre ++ before.flatMap Trivia.text ++ left,
      right ++ behind.flatMap Trivia.text ++ token.text ++ textOf post, ?_, ?_⟩
    all_goals simp [textOf, Lexeme.text, Trivia.text]

structure Item.Commented (c : Text) (item item' : Item) : Prop where
  before : item'.before = item.before
  follows : item'.follows = item.follows
  declaration : Declaration.Commented c item.declaration item'.declaration

theorem Item.Commented.doc_eq {c : Text} {item item' : Item} (h : Item.Commented c item item') :
    item'.doc = item.doc := by
  rw [Item.doc, Item.doc, DocComment.attached, DocComment.attached, h.before, h.follows]

namespace SourceFile

variable {c : Text}

theorem item_commented {pre post : List Lexeme} {l l' : Lexeme} {placed placed' : Item × Input}
    (hPlace : Grammar.IsPlace (pre ++ l :: post) placed.1 placed.2)
    (hPlace' : Grammar.IsPlace (pre ++ l' :: post) placed'.1 placed'.2) (hOther : placed.2 ≠ l :: post)
    (h : Grammar.PlacedCommented c placed placed') : Item.Commented c placed.1 placed'.1 := by
  obtain ⟨x, rest, hStart, hBefore⟩ := hPlace.exists_cons
  obtain ⟨x', rest', hStart', hBefore'⟩ := hPlace'.exists_cons
  have hLength := h.place.length_eq
  rw [hStart, hStart', List.length_cons, List.length_cons, Nat.add_right_cancel_iff] at hLength
  have hFirst := eq_of_suffix (hStart ▸ hPlace.suffix) (hStart' ▸ hPlace'.suffix) hLength.symm (hStart ▸ hOther)
  exact ⟨by rw [hBefore, hBefore', hFirst], h.follows, h.declaration⟩

theorem items_commented {pre post : List Lexeme} {l l' : Lexeme} {items items' : List (Item × Input)}
    (h : List.Forall₂ (Grammar.PlacedCommented c) items items')
    (hPlace : ∀ placed ∈ items, Grammar.IsPlace (pre ++ l :: post) placed.1 placed.2)
    (hPlace' : ∀ placed ∈ items', Grammar.IsPlace (pre ++ l' :: post) placed.1 placed.2)
    (hOther : ∀ placed ∈ items, placed.2 ≠ l :: post) :
    List.Forall₂ (Item.Commented c) (items.map Prod.fst) (items'.map Prod.fst) := by
  induction h with
  | nil => exact .nil
  | cons hPlaced _ ih =>
    obtain ⟨hFirst, hPlace⟩ := List.forall_mem_cons.mp hPlace
    obtain ⟨hFirst', hPlace'⟩ := List.forall_mem_cons.mp hPlace'
    obtain ⟨hFirstOther, hOther⟩ := List.forall_mem_cons.mp hOther
    exact .cons (item_commented hFirst hFirst' hFirstOther hPlaced) (ih hPlace hPlace' hOther)

/-- A comment inside the declarations changes no documentation, and the declarations only where types keep it. -/
theorem parse_commented {source source' : Text} (h : InsertedInside c source source') :
    Option.Rel (fun f f' => List.Forall₂ (Item.Commented c) f.items f'.items) (parse source) (parse source') := by
  obtain ⟨pre, post, before, before', token, hLexemes, hLexemes', hInserted, hOther⟩ := h
  have hCommented : Input.Commented c (pre ++ ⟨before, token⟩ :: post) (pre ++ ⟨before', token⟩ :: post) :=
    List.rel_append (List.forall₂_same.mpr fun l _ => .refl c l)
      (.cons (Lexeme.commented_of_inserted hInserted token) (List.forall₂_same.mpr fun l _ => .refl c l))
  rw [parse_eq_map hLexemes, parse_eq_map hLexemes']
  refine Reader.rel_map (placedItems_alike hCommented) fun hRead hRead' hItems => ?_
  exact items_commented hItems (fun _ hMem => isPlace_of_placedItems hRead hMem)
    (fun _ hMem => isPlace_of_placedItems hRead' hMem) (hOther _ hRead)

end SourceFile

end GoCommands.Go
