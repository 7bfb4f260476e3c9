import GoCommands.Proofs.Text.Lines
import GoCommands.Proofs.Wrapper.Quoting

/-! # Lexemes of generated source

The lexemes that stand in a generated file, with the white space and comments before each. The lexer
gives back exactly these from their text.
-/

namespace GoCommands.Go.IsWord

/-- Only whole words are keywords, and none ends like a wrapper type. -/
theorem typeName {w : Text} (h : IsWord w) : IsWord (Wrapper.typeName w) := by
  obtain ⟨⟨c, cs, rfl, hStart, hPart⟩, -⟩ := h
  refine ⟨⟨c, cs ++ wrapperSuffix, rfl, hStart, ?_⟩, ?_⟩
  · intro d hd
    rcases List.mem_append.mp hd with hd | hd
    · exact hPart d hd
    · have hSuffix : wrapperSuffix.all Text.isIdentifierPart := by decide
      exact List.all_eq_true.mp hSuffix d hd
  · refine List.find?_eq_none.mpr ?_
    intro k _ hEq
    have hSuffix : wrapperSuffix <:+ k.text := by
      rw [beq_iff_eq.mp hEq]
      exact List.suffix_append _ _
    have hNone : ¬ wrapperSuffix <:+ k.text := by
      cases k <;> decide
    exact hNone hSuffix

end GoCommands.Go.IsWord

namespace GoCommands.Wrapper

open Go

def gap : Trivia := .blank ['\n', '\n']

def newLine : Trivia := .blank ['\n']

def indent : Trivia := .blank ['\n', '\t']

def space : Trivia := .blank [' ']

def typeComment (f : WrappedFunction) : Text :=
  "// ".toList ++ typeName f.name ++ " runs ".toList ++ f.name ++ " as a command.".toList

def typeLexemes (f : WrappedFunction) : List Lexeme :=
  [⟨[gap, .comment (typeComment f), newLine], .keyword .type⟩, ⟨[space], .word (typeName f.name)⟩,
    ⟨[space], .keyword .struct⟩, ⟨[], .symbol .braceOpen⟩, ⟨[], .symbol .braceClose⟩]

/-- A method up to the parenthesis of its parameters. -/
def methodStart (type method : Text) : List Lexeme :=
  [⟨[gap], .keyword .func⟩, ⟨[space], .symbol .parenOpen⟩, ⟨[], .word type⟩, ⟨[], .symbol .parenClose⟩,
    ⟨[space], .word method⟩, ⟨[], .symbol .parenOpen⟩]

def constantLexemes (type method value : Text) : List Lexeme :=
  methodStart type method ++ [⟨[], .symbol .parenClose⟩, ⟨[space], .word "string".toList⟩,
    ⟨[space], .symbol .braceOpen⟩, ⟨[indent], .keyword .return_⟩, ⟨[space], .string (quote value)⟩,
    ⟨[newLine], .symbol .braceClose⟩]

def parameterLexemes (i : Invocation) : List Lexeme :=
  if i.usesContext then
    [⟨[], .word "ctx".toList⟩, ⟨[space], .word contextPackage⟩, ⟨[], .symbol .dot⟩, ⟨[], .word contextType⟩]
  else []

def resultLexemes (i : Invocation) : List Lexeme :=
  if i.returnsError then [⟨[space], .word "error".toList⟩] else []

/-- The call of the function from its name on. -/
def callLexemes (before : Trivia) (f : WrappedFunction) : List Lexeme :=
  [⟨[before], .word f.name⟩, ⟨[], .symbol .parenOpen⟩] ++
    (if f.invocation.usesContext then [⟨[], .word "ctx".toList⟩] else []) ++ [⟨[], .symbol .parenClose⟩]

def bodyLexemes (f : WrappedFunction) : List Lexeme :=
  if f.invocation.returnsError then ⟨[indent], .keyword .return_⟩ :: callLexemes space f
  else callLexemes indent f

def runLexemes (f : WrappedFunction) : List Lexeme :=
  methodStart (typeName f.name) "Run".toList ++ parameterLexemes f.invocation ++
    [⟨[], .symbol .parenClose⟩] ++ resultLexemes f.invocation ++ [⟨[space], .symbol .braceOpen⟩] ++
    bodyLexemes f ++ [⟨[newLine], .symbol .braceClose⟩]

def descriptionLexemes (f : WrappedFunction) : List Lexeme :=
  match f.description with
  | some description => constantLexemes (typeName f.name) "Description".toList description
  | none => []

def wrapperLexemes (f : WrappedFunction) : List Lexeme :=
  typeLexemes f ++ runLexemes f ++ constantLexemes (typeName f.name) "Name".toList f.name ++
    descriptionLexemes f

/-- The line that states the tag, with its end and an empty line. -/
def tagTrivia (tag : Option Text) : List Trivia :=
  match tag with
  | some tag => [.comment (Text.trimEnd ("//go:build ".toList ++ tag)), gap]
  | none => []

def packageLexemes (package : Text) (tag : Option Text) : List Lexeme :=
  [⟨tagTrivia tag ++ [.comment marker, gap], .keyword .package⟩, ⟨[space], .word package⟩]

def importLexemes (functions : List WrappedFunction) : List Lexeme :=
  if functions.any (·.invocation.usesContext) then
    [⟨[gap], .keyword .import_⟩, ⟨[space], .string (quote contextPackage)⟩]
  else []

def endLexemes : List Lexeme := [⟨[newLine], .eof⟩]

def unitLexemes (package : Text) (tag : Option Text) (functions : List WrappedFunction) : List Lexeme :=
  packageLexemes package tag ++ importLexemes functions ++ functions.flatMap wrapperLexemes ++ endLexemes

def fileLexemes (ending : Trivia) (package : Text) (tag : Option Text) (functions : List WrappedFunction) :
    List Lexeme :=
  packageLexemes package tag ++ importLexemes functions ++ functions.flatMap wrapperLexemes ++ [⟨[ending], .eof⟩]

theorem isWord_fixed : ∀ w ∈ ["Run".toList, "Name".toList, "Description".toList, "string".toList,
    "error".toList, "ctx".toList, contextPackage, contextType], IsWord w := by
  simp only [List.forall_mem_cons]
  refine ⟨?_, ?_, ?_, ?_, ?_, ?_, ?_, ?_, fun _ h => nomatch h⟩ <;>
    exact isWord_of_all (by decide) (by decide) (by decide)

theorem spaced_nil : Spaced [] := trivial

theorem spaced_blank {b : Text} (hNonempty : b ≠ []) (hBlank : b.all Lexer.isBlank) : Spaced [.blank b] :=
  ⟨hNonempty, List.all_eq_true.mp hBlank⟩

theorem spaced_gap : Spaced [gap] := spaced_blank (by decide) (by decide)

theorem spaced_newLine : Spaced [newLine] := spaced_blank (by decide) (by decide)

theorem spaced_indent : Spaced [indent] := spaced_blank (by decide) (by decide)

theorem spaced_space : Spaced [space] := spaced_blank (by decide) (by decide)

theorem newline_not_mem_typeComment {f : WrappedFunction} (hName : IsWord f.name) :
    '\n' ∉ typeComment f := by
  have hAppend : ∀ {as bs : Text}, '\n' ∉ as → '\n' ∉ bs → '\n' ∉ as ++ bs :=
    fun hLeft hRight hMem => (List.mem_append.mp hMem).elim hLeft hRight
  have hMem : '\n' ∉ f.name := hName.not_mem_of_isWhite (by decide)
  have hType : '\n' ∉ typeName f.name := hName.typeName.not_mem_of_isWhite (by decide)
  exact hAppend (hAppend (hAppend (hAppend (by decide) hType) (by decide)) hMem) (by decide)

section

variable {f : WrappedFunction} (hName : IsWord f.name) {rest : List Lexeme} (hRest : Written rest)
include hRest

theorem written_methodStart {type method : Text} (hType : IsWord type) (hMethod : IsWord method) :
    Written (methodStart type method ++ rest) :=
  .keyword spaced_gap id <| .bracket spaced_space <| .word spaced_nil hType id <| .bracket spaced_nil <|
    .word spaced_space hMethod id <| .bracket spaced_nil hRest

theorem written_constant {type method value : Text} (hType : IsWord type) (hMethod : IsWord method) :
    Written (constantLexemes type method value ++ rest) := by
  rw [constantLexemes, List.append_assoc]
  refine written_methodStart ?_ hType hMethod
  have hString : IsWord "string".toList := isWord_fixed _ (by decide)
  exact .bracket spaced_nil <| .word spaced_space hString id <| .bracket spaced_space <|
    .keyword spaced_indent id <| .string spaced_space (proper_quote value) <|
      .bracket spaced_newLine hRest

include hName

theorem written_type : Written (typeLexemes f ++ rest) := by
  have hComment : Spaced [gap, .comment (typeComment f), newLine] := by
    refine ⟨spaced_gap, ⟨_, rfl, ?_⟩, rfl, spaced_newLine⟩
    exact fun hMem => newline_not_mem_typeComment hName (List.mem_cons_of_mem _ (List.mem_cons_of_mem _ hMem))
  exact .keyword hComment id <| .word spaced_space hName.typeName id <| .keyword spaced_space id <|
    .bracket spaced_nil <| .bracket spaced_nil hRest

theorem written_call {before : Trivia} (hBefore : Spaced [before]) :
    Written (callLexemes before f ++ rest) := by
  have hContext : IsWord "ctx".toList := isWord_fixed _ (by decide)
  refine .word hBefore hName id <| .bracket spaced_nil ?_
  split
  · exact .word spaced_nil hContext id <| .bracket spaced_nil hRest
  · exact .bracket spaced_nil hRest

theorem written_body : Written (bodyLexemes f ++ rest) := by
  rw [bodyLexemes]
  split
  · exact .keyword spaced_indent id (written_call hName hRest spaced_space)
  · exact written_call hName hRest spaced_indent

theorem written_result : Written (resultLexemes f.invocation ++ ⟨[space], .symbol .braceOpen⟩ ::
    (bodyLexemes f ++ rest)) := by
  have hBody : Written (⟨[space], .symbol .braceOpen⟩ :: (bodyLexemes f ++ rest)) :=
    .bracket spaced_space (written_body hName hRest)
  rw [resultLexemes]
  split
  · exact .word spaced_space (isWord_fixed _ (by decide)) id hBody
  · exact hBody

theorem written_run : Written (runLexemes f ++ rest) := by
  have hResult := written_result hName (.bracket (s := .braceClose) spaced_newLine hRest)
  have hClose : Written (⟨[], .symbol .parenClose⟩ :: _) := .bracket spaced_nil hResult
  simp only [runLexemes, List.append_assoc, List.cons_append, List.nil_append]
  refine written_methodStart ?_ hName.typeName (isWord_fixed _ (by decide))
  rw [parameterLexemes]
  split
  · exact .word spaced_nil (isWord_fixed _ (by decide)) id <|
      .word spaced_space (isWord_fixed _ (by decide)) id <|
        .dot spaced_nil trivial <| .word spaced_nil (isWord_fixed _ (by decide)) id hClose
  · exact hClose

theorem written_wrapper : Written (wrapperLexemes f ++ rest) := by
  simp only [wrapperLexemes, List.append_assoc]
  refine written_type hName <| written_run hName <|
    written_constant ?_ hName.typeName (isWord_fixed _ (by decide))
  rw [descriptionLexemes]
  split
  · exact written_constant hRest hName.typeName (isWord_fixed _ (by decide))
  · exact hRest

end

theorem exists_tagComment (tag : Text) : ∃ line, Text.trimEnd ("//go:build ".toList ++ tag) =
    '/' :: '/' :: line ∧ ('\n' ∉ tag → '\n' ∉ line) := by
  refine ⟨Text.trimEnd ("go:build ".toList ++ tag), ?_, ?_⟩
  · exact (Text.trimEnd_cons (by decide) _).trans (congrArg _ (Text.trimEnd_cons (by decide) _))
  · intro hTag hMem
    rcases List.mem_append.mp (Text.mem_of_mem_trimEnd hMem) with hMem | hMem
    · exact absurd hMem (by decide)
    · exact hTag hMem

theorem spaced_tagTrivia {tag : Option Text} (hTag : ∀ t ∈ tag, '\n' ∉ t) :
    Spaced (tagTrivia tag ++ [.comment marker, gap]) := by
  have hMarker : Spaced [.comment marker, gap] := ⟨⟨_, rfl, by decide⟩, rfl, spaced_gap⟩
  cases tag with
  | none => exact hMarker
  | some tag =>
    obtain ⟨line, hLine, hClean⟩ := exists_tagComment tag
    exact ⟨⟨line, hLine, hClean (hTag tag rfl)⟩, rfl, spaced_gap, hMarker⟩

section

variable {ending : Trivia} (hEnding : Spaced [ending]) {package : Text} {tag : Option Text}
  {functions : List WrappedFunction}

include hEnding in
theorem written_functions (hNames : ∀ f ∈ functions, IsWord f.name) :
    Written (functions.flatMap wrapperLexemes ++ [⟨[ending], .eof⟩]) := by
  induction functions with
  | nil => exact .eof hEnding
  | cons f functions ih =>
    obtain ⟨hName, hNames⟩ := List.forall_mem_cons.mp hNames
    rw [List.flatMap_cons, List.append_assoc]
    exact written_wrapper hName (ih hNames)

theorem not_startsWithWord_functions (ending : Trivia) (functions : List WrappedFunction) :
    ¬ StartsWithWord (functions.flatMap wrapperLexemes ++ [⟨[ending], .eof⟩]) := by
  cases functions <;> exact id

include hEnding

theorem written_unit (hPackage : IsWord package) (hTag : ∀ t ∈ tag, '\n' ∉ t)
    (hNames : ∀ f ∈ functions, IsWord f.name) : Written (fileLexemes ending package tag functions) := by
  have hFunctions := written_functions hEnding hNames
  simp only [fileLexemes, packageLexemes, List.append_assoc, List.cons_append, List.nil_append]
  rw [importLexemes]
  split
  · exact .keyword (spaced_tagTrivia hTag) id <| .word spaced_space hPackage id <|
      .keyword spaced_gap id <| .string spaced_space (proper_quote contextPackage) hFunctions
  · exact .keyword (spaced_tagTrivia hTag) id <|
      .word spaced_space hPackage (not_startsWithWord_functions ending functions) hFunctions

/-- The lexer reads a generated file as it was written. -/
theorem lexemes_unit (hPackage : IsWord package) (hTag : ∀ t ∈ tag, '\n' ∉ t)
    (hNames : ∀ f ∈ functions, IsWord f.name) :
    lexemes (textOf (fileLexemes ending package tag functions)) = some (fileLexemes ending package tag functions) := by
  refine lexemes_textOf (written_unit hEnding hPackage hTag hNames) ?_
  cases tag with
  | none => rfl
  | some tag =>
    obtain ⟨line, hLine, -⟩ := exists_tagComment tag
    have hText : ∃ t, textOf (fileLexemes ending package (some tag) functions) = '/' :: t := by
      rw [fileLexemes, packageLexemes, tagTrivia, hLine]
      exact ⟨_, rfl⟩
    obtain ⟨t, hText⟩ := hText
    rw [hText]
    rfl

end

end GoCommands.Wrapper
