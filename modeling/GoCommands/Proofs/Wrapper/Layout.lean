import GoCommands.Wrapper.Layout
import GoCommands.Proofs.Wrapper.Lexemes

/-! # Layout of generated source

The lines of a generated file are kept as they are written, up to the empty line at the end. What is
written to the file system is the text of the lexemes.
-/

namespace GoCommands

namespace Layout

/-- The last character is there and no white space. -/
def EndsVisible (t : Text) : Prop := ∃ front last, t = front ++ [last] ∧ Text.isWhite last = false

theorem EndsVisible.append {t : Text} (h : EndsVisible t) (front : Text) : EndsVisible (front ++ t) := by
  obtain ⟨middle, last, rfl, hLast⟩ := h
  exact ⟨front ++ middle, last, (List.append_assoc _ _ _).symm, hLast⟩

theorem EndsVisible.of_getLast? {t : Text} {c : Char} (h : t.getLast? = some c)
    (hWhite : Text.isWhite c = false) : EndsVisible t := by
  obtain ⟨front, rfl⟩ := List.getLast?_eq_some_iff.mp h
  exact ⟨front, c, rfl, hWhite⟩

theorem arrange_line (started gap : Bool) {l : Text} (hClean : '\n' ∉ l) (hNonempty : Text.trimEnd l ≠ [])
    (rest : Text) : arrange started gap (Text.lines (l ++ '\n' :: rest)) =
      (if gap then ['\n'] else []) ++ Text.trimEnd l ++ '\n' :: arrange true false (Text.lines rest) := by
  rw [Text.lines_append hClean, arrange, Text.trimEnd_dropReturn, if_neg]
  simpa using hNonempty

theorem arrange_blankLine (started gap : Bool) (rest : Text) :
    arrange started gap (Text.lines (Wrapper.blankLine ++ rest)) =
      arrange started started (Text.lines rest) := by
  have hLines : Text.lines (Wrapper.blankLine ++ rest) = [] :: Text.lines rest :=
    Text.lines_append (List.not_mem_nil) rest
  rw [hLines, arrange]
  rfl

/-- A line that is put together from parts stays as it is. -/
theorem arrange_parts (started gap : Bool) {parts : List Text} {last : Text}
    (hClean : ∀ p ∈ parts, '\n' ∉ p) (hVisible : EndsVisible last) (hLast : parts.getLast? = some last)
    (rest : Text) : arrange started gap (Text.lines (Wrapper.line parts ++ rest)) =
      (if gap then ['\n'] else []) ++ parts.flatten ++ '\n' :: arrange true false (Text.lines rest) := by
  obtain ⟨front, rfl⟩ := List.getLast?_eq_some_iff.mp hLast
  have hEnd : EndsVisible (front ++ [last]).flatten := by
    rw [List.flatten_append, List.flatten_singleton]
    exact hVisible.append _
  obtain ⟨before, c, hEq, hWhite⟩ := hEnd
  have hTrim : Text.trimEnd (front ++ [last]).flatten = (front ++ [last]).flatten := by
    rw [hEq, Text.trimEnd_concat hWhite]
  have hMem : '\n' ∉ (front ++ [last]).flatten := by
    intro hMem
    obtain ⟨p, hp, hMem⟩ := List.mem_flatten.mp hMem
    exact hClean p hp hMem
  rw [Wrapper.line, List.append_assoc, List.singleton_append,
    arrange_line started gap hMem (by rw [hTrim, hEq]; simp), hTrim]

end Layout

namespace Wrapper

open Layout Go

theorem endsVisible_brace : EndsVisible ['\x7d'] := ⟨[], _, rfl, by decide⟩

theorem arrange_constantMethod {type method : Text} (hType : '\n' ∉ type) (hMethod : '\n' ∉ method)
    (value rest : Text) :
    '\n' :: arrange true true (Text.lines (constantMethod type method value ++ rest)) =
      textOf (constantLexemes type method value) ++ '\n' :: arrange true true (Text.lines rest) := by
  have hOpen : EndsVisible "() string \x7b".toList := .of_getLast? rfl (by decide)
  have hQuote : EndsVisible (quote value) := ⟨_, '"', rfl, by decide⟩
  simp only [constantMethod, List.append_assoc]
  rw [arrange_parts true true ?_ hOpen rfl,
    arrange_parts true false ?_ hQuote rfl, arrange_parts true false ?_ endsVisible_brace rfl,
    arrange_blankLine]
  · simp only [textOf, constantLexemes, methodStart, Lexeme.text, gap, space, indent, newLine,
      List.flatMap_cons, List.flatMap_nil, List.flatten_cons, List.flatten_nil,
      List.append_assoc, List.nil_append, List.append_nil, List.cons_append, Trivia.text, Token.text,
      Symbol.text]
    rfl
  · simp only [List.forall_mem_cons]
    exact ⟨by decide, List.forall_mem_nil _⟩
  · simp only [List.forall_mem_cons]
    exact ⟨by decide, newline_not_mem_quote value, List.forall_mem_nil _⟩
  · simp only [List.forall_mem_cons]
    exact ⟨by decide, hType, by decide, hMethod, by decide, List.forall_mem_nil _⟩

section

variable {f : WrappedFunction} (hName : '\n' ∉ f.name)
include hName

theorem newline_not_mem_typeName : '\n' ∉ typeName f.name := by
  rw [typeName, List.mem_append, not_or]
  exact ⟨hName, by decide⟩

theorem arrange_runMethod (rest : Text) :
    '\n' :: arrange true true (Text.lines (runMethod f ++ rest)) =
      textOf (runLexemes f) ++ '\n' :: arrange true true (Text.lines rest) := by
  have hType := newline_not_mem_typeName hName
  have hOpen : EndsVisible " \x7b".toList := .of_getLast? rfl (by decide)
  have hClose : EndsVisible [')'] := ⟨[], _, rfl, by decide⟩
  have hParameters : ∀ b : Bool, '\n' ∉ if b then "ctx context.Context".toList else [] := by decide
  have hArguments : ∀ b : Bool, '\n' ∉ if b then "ctx".toList else [] := by decide
  have hResult : ∀ b : Bool, '\n' ∉ if b then " error".toList else [] := by decide
  have hCall : ∀ b : Bool, '\n' ∉ if b then "\treturn ".toList else ['\t'] := by decide
  simp only [runMethod, List.append_assoc]
  rw [arrange_parts true true ?_ hOpen rfl,
    arrange_parts true false ?_ hClose rfl, arrange_parts true false ?_ endsVisible_brace rfl,
    arrange_blankLine]
  · simp only [textOf, runLexemes, methodStart, parameterLexemes, resultLexemes, bodyLexemes, callLexemes]
    cases f.invocation.usesContext <;> cases f.invocation.returnsError <;>
    · simp only [if_true, if_false, Bool.false_eq_true, Lexeme.text, gap, space, indent, newLine,
        List.flatMap_cons, List.flatMap_nil, List.flatten_cons, List.flatten_nil, List.append_assoc,
        List.nil_append, List.append_nil, List.cons_append, Trivia.text, Token.text, Symbol.text]
      rfl
  · simp only [List.forall_mem_cons]
    exact ⟨by decide, List.forall_mem_nil _⟩
  · simp only [List.forall_mem_cons]
    exact ⟨hCall _, hName, by decide, hArguments _, by decide, List.forall_mem_nil _⟩
  · simp only [List.forall_mem_cons]
    exact ⟨by decide, hType, by decide, hParameters _, by decide, hResult _, by decide,
      List.forall_mem_nil _⟩

def typeText (f : WrappedFunction) : Text :=
  line ["// ".toList, typeName f.name, " runs ".toList, f.name, " as a command.".toList] ++
    line ["type ".toList, typeName f.name, " struct\x7b\x7d".toList] ++ blankLine

theorem arrange_typeText (rest : Text) :
    '\n' :: arrange true true (Text.lines (typeText f ++ rest)) =
      textOf (typeLexemes f) ++ '\n' :: arrange true true (Text.lines rest) := by
  have hType := newline_not_mem_typeName hName
  have hComment : EndsVisible " as a command.".toList := .of_getLast? rfl (by decide)
  have hStruct : EndsVisible " struct\x7b\x7d".toList := .of_getLast? rfl (by decide)
  simp only [typeText, List.append_assoc]
  rw [arrange_parts true true ?_ hComment rfl,
    arrange_parts true false ?_ hStruct rfl, arrange_blankLine]
  · simp only [textOf, typeLexemes, typeComment, Lexeme.text, gap, space, newLine,
      List.flatMap_cons, List.flatMap_nil, List.flatten_cons, List.flatten_nil, List.append_assoc,
      List.nil_append, List.append_nil, List.cons_append, Trivia.text, Token.text, Symbol.text]
    rfl
  · simp only [List.forall_mem_cons]
    exact ⟨by decide, hType, by decide, List.forall_mem_nil _⟩
  · simp only [List.forall_mem_cons]
    exact ⟨by decide, hType, by decide, hName, by decide, List.forall_mem_nil _⟩

def descriptionText (f : WrappedFunction) : Text :=
  match f.description with
  | some description => constantMethod (typeName f.name) "Description".toList description
  | none => []

theorem arrange_descriptionText (rest : Text) :
    '\n' :: arrange true true (Text.lines (descriptionText f ++ rest)) =
      textOf (descriptionLexemes f) ++ '\n' :: arrange true true (Text.lines rest) := by
  rw [descriptionText, descriptionLexemes]
  cases f.description with
  | none => rfl
  | some description => exact arrange_constantMethod (newline_not_mem_typeName hName) (by decide) description rest

theorem arrange_wrapper (rest : Text) :
    '\n' :: arrange true true (Text.lines (wrapper f ++ rest)) =
      textOf (wrapperLexemes f) ++ '\n' :: arrange true true (Text.lines rest) := by
  have hType := newline_not_mem_typeName hName
  have hParts : wrapper f = typeText f ++ runMethod f ++ constantMethod (typeName f.name) "Name".toList f.name ++
      descriptionText f := rfl
  simp only [hParts, List.append_assoc]
  rw [arrange_typeText hName, arrange_runMethod hName, arrange_constantMethod hType (by decide),
    arrange_descriptionText hName]
  simp only [wrapperLexemes, textOf, List.flatMap_append, List.append_assoc]

end

theorem arrange_functions {functions : List WrappedFunction} (hNames : ∀ f ∈ functions, '\n' ∉ f.name) :
    '\n' :: arrange true true (Text.lines (functions.flatMap wrapper)) =
      textOf (functions.flatMap wrapperLexemes ++ endLexemes) := by
  induction functions with
  | nil => rfl
  | cons f functions ih =>
    obtain ⟨hName, hNames⟩ := List.forall_mem_cons.mp hNames
    rw [List.flatMap_cons, arrange_wrapper hName, ih hNames]
    simp only [textOf, List.flatMap_cons, List.flatMap_append, List.append_assoc]

def importText (functions : List WrappedFunction) : Text :=
  if functions.any (·.invocation.usesContext) then
    line ["import \"".toList, contextPackage, ['"']] ++ blankLine
  else []

theorem arrange_importText (functions : List WrappedFunction) (rest : Text) :
    '\n' :: arrange true true (Text.lines (importText functions ++ rest)) =
      textOf (importLexemes functions) ++ '\n' :: arrange true true (Text.lines rest) := by
  have hQuote : EndsVisible ['"'] := ⟨[], _, rfl, by decide⟩
  rw [importText, importLexemes]
  split
  · rw [List.append_assoc, arrange_parts true true ?_ hQuote rfl, arrange_blankLine]
    · rfl
    · simp only [List.forall_mem_cons]
      exact ⟨by decide, by decide, by decide, List.forall_mem_nil _⟩
  · rfl

theorem arrange_packageLine {package : Text} (hPackage : IsWord package) (rest : Text) :
    '\n' :: arrange true true (Text.lines (line ["package ".toList, package] ++ blankLine ++ rest)) =
      ['\n', '\n'] ++ "package ".toList ++ package ++ '\n' :: arrange true true (Text.lines rest) := by
  have hEnd : EndsVisible package := by
    obtain hNil | ⟨front, last, hEq⟩ := List.eq_nil_or_concat package
    · exact absurd hNil hPackage.ne_nil
    · rw [List.concat_eq_append] at hEq
      have hLast := hPackage.not_isWhite (c := last) (by rw [hEq]; simp)
      exact ⟨front, last, hEq, Bool.eq_false_iff.mpr hLast⟩
  rw [List.append_assoc, arrange_parts true true ?_ hEnd rfl, arrange_blankLine]
  · simp only [List.flatten_cons, List.flatten_nil, List.append_nil, List.append_assoc]
    rfl
  · simp only [List.forall_mem_cons]
    exact ⟨by decide, hPackage.not_mem_of_isWhite (by decide), List.forall_mem_nil _⟩

theorem arrange_marker (rest : Text) (started : Bool) :
    arrange started started (Text.lines (line [marker] ++ blankLine ++ rest)) =
      (if started then ['\n'] else []) ++ marker ++ '\n' :: arrange true true (Text.lines rest) := by
  have hMarker : EndsVisible marker := .of_getLast? (c := '.') (by decide) (by decide)
  rw [List.append_assoc, arrange_parts started started ?_ hMarker rfl, arrange_blankLine]
  · simp only [List.flatten_cons, List.flatten_nil, List.append_nil]
  · simp only [List.forall_mem_cons]
    exact ⟨by decide, List.forall_mem_nil _⟩

def tagText (tag : Option Text) : Text :=
  match tag with
  | some tag => line ["//go:build ".toList, tag] ++ blankLine
  | none => []

/-- The lines for tools. Only the one with the tag can end with white space. -/
theorem arrange_header {tag : Option Text} (hTag : ∀ t ∈ tag, '\n' ∉ t) (rest : Text) :
    arrange false false (Text.lines (tagText tag ++ (line [marker] ++ blankLine ++ rest))) =
      (tagTrivia tag).flatMap Trivia.text ++ marker ++ '\n' :: arrange true true (Text.lines rest) := by
  cases tag with
  | none =>
    rw [tagText, List.nil_append, arrange_marker]
    rfl
  | some tag =>
    have hClean : '\n' ∉ ["//go:build ".toList, tag].flatten := by
      simp only [List.flatten_cons, List.flatten_nil, List.append_nil, List.mem_append, not_or]
      exact ⟨by decide, hTag tag rfl⟩
    have hTrim : Text.trimEnd ["//go:build ".toList, tag].flatten =
        Text.trimEnd ("//go:build ".toList ++ tag) := by
      simp only [List.flatten_cons, List.flatten_nil, List.append_nil]
    obtain ⟨comment, hComment, -⟩ := exists_tagComment tag
    have hText : ∀ rest, tagText (some tag) ++ rest =
        ["//go:build ".toList, tag].flatten ++ '\n' :: (blankLine ++ rest) := by
      intro rest
      simp only [tagText, line, List.append_assoc, List.cons_append, List.nil_append]
    rw [hText, arrange_line false false hClean (by rw [hTrim, hComment]; exact List.cons_ne_nil _ _),
      arrange_blankLine, arrange_marker, hTrim]
    simp only [tagTrivia, gap, List.flatMap_cons, List.flatMap_nil, Trivia.text, List.append_assoc]
    rfl

/-- What is written for some functions is the text of the lexemes of the generated file. -/
theorem normalize_unit {package : Text} {tag : Option Text} {functions : List WrappedFunction}
    (hPackage : IsWord package) (hTag : ∀ t ∈ tag, '\n' ∉ t) (hNames : ∀ f ∈ functions, IsWord f.name) :
    Layout.normalize (unit package tag functions) = textOf (unitLexemes package tag functions) := by
  have hFunctions := arrange_functions fun f hf => (hNames f hf).not_mem_of_isWhite (by decide)
  have hParts : unit package tag functions = tagText tag ++ line [marker] ++ blankLine ++
      line ["package ".toList, package] ++ blankLine ++ importText functions ++ functions.flatMap wrapper := rfl
  have hUnit : unit package tag functions = tagText tag ++ (line [marker] ++ blankLine ++
      (line ["package ".toList, package] ++ blankLine ++
        (importText functions ++ functions.flatMap wrapper))) := by
    simp only [hParts, List.append_assoc]
  rw [hUnit, Layout.normalize, arrange_header hTag, arrange_packageLine hPackage, arrange_importText, hFunctions]
  simp only [unitLexemes, packageLexemes, textOf, List.flatMap_append, List.flatMap_cons, List.flatMap_nil,
    Lexeme.text, List.append_assoc, List.append_nil]
  rfl

/-! ## The text before the layout

An empty line ends each declaration, so the text has one line break more than what is written.
-/

theorem text_constantMethod (type method value rest : Text) :
    '\n' :: '\n' :: (constantMethod type method value ++ rest) =
      textOf (constantLexemes type method value) ++ '\n' :: '\n' :: rest := by
  simp only [constantMethod, line, blankLine, textOf, constantLexemes, methodStart, Lexeme.text, gap, space, indent,
    newLine, List.flatMap_cons, List.flatMap_nil, List.flatten_cons, List.flatten_nil, List.append_assoc,
    List.nil_append, List.append_nil, List.cons_append, Trivia.text, Token.text, Symbol.text]
  rfl

theorem text_runMethod (f : WrappedFunction) (rest : Text) :
    '\n' :: '\n' :: (runMethod f ++ rest) = textOf (runLexemes f) ++ '\n' :: '\n' :: rest := by
  simp only [runMethod, textOf, runLexemes, methodStart, parameterLexemes, resultLexemes, bodyLexemes, callLexemes]
  cases f.invocation.usesContext <;> cases f.invocation.returnsError <;>
  · simp only [line, blankLine, if_true, if_false, Bool.false_eq_true, Lexeme.text, gap, space, indent, newLine,
      List.flatMap_cons, List.flatMap_nil, List.flatten_cons, List.flatten_nil, List.append_assoc,
      List.nil_append, List.append_nil, List.cons_append, Trivia.text, Token.text, Symbol.text]
    rfl

theorem text_typeText (f : WrappedFunction) (rest : Text) :
    '\n' :: '\n' :: (typeText f ++ rest) = textOf (typeLexemes f) ++ '\n' :: '\n' :: rest := by
  simp only [typeText, line, blankLine, textOf, typeLexemes, typeComment, Lexeme.text, gap, space, newLine,
    List.flatMap_cons, List.flatMap_nil, List.flatten_cons, List.flatten_nil, List.append_assoc,
    List.nil_append, List.append_nil, List.cons_append, Trivia.text, Token.text, Symbol.text]
  rfl

theorem text_descriptionText (f : WrappedFunction) (rest : Text) :
    '\n' :: '\n' :: (descriptionText f ++ rest) = textOf (descriptionLexemes f) ++ '\n' :: '\n' :: rest := by
  rw [descriptionText, descriptionLexemes]
  cases f.description with
  | none => rfl
  | some description => exact text_constantMethod _ _ description rest

theorem text_functions (functions : List WrappedFunction) :
    '\n' :: '\n' :: functions.flatMap wrapper = textOf (functions.flatMap wrapperLexemes ++ [⟨[gap], .eof⟩]) := by
  have hParts : ∀ f rest, wrapper f ++ rest = typeText f ++ (runMethod f ++
      (constantMethod (typeName f.name) "Name".toList f.name ++ (descriptionText f ++ rest))) := by
    intro f rest
    simp only [← List.append_assoc]
    rfl
  induction functions with
  | nil => rfl
  | cons f functions ih =>
    rw [List.flatMap_cons, hParts, text_typeText, text_runMethod, text_constantMethod, text_descriptionText, ih]
    simp only [wrapperLexemes, textOf, List.flatMap_cons, List.flatMap_append, List.append_assoc]

theorem text_importText (functions : List WrappedFunction) (rest : Text) :
    '\n' :: '\n' :: (importText functions ++ rest) = textOf (importLexemes functions) ++ '\n' :: '\n' :: rest := by
  rw [importText, importLexemes]
  split <;> rfl

/-- The text of some functions is that of its lexemes, if white space at the end of the tag does not have to go. -/
theorem unit_eq_textOf (package : Text) {tag : Option Text} (functions : List WrappedFunction)
    (hTag : ∀ t ∈ tag, Text.trimEnd ("//go:build ".toList ++ t) = "//go:build ".toList ++ t) :
    unit package tag functions = textOf (fileLexemes gap package tag functions) := by
  have hHeader : tagText tag = (tagTrivia tag).flatMap Trivia.text := by
    cases tag with
    | none => rfl
    | some tag =>
      rw [tagTrivia, hTag tag rfl]
      simp only [tagText, line, blankLine, gap, Trivia.text, List.flatten_cons, List.flatten_nil,
        List.flatMap_cons, List.flatMap_nil, List.append_assoc, List.append_nil]
      rfl
  have hParts : unit package tag functions = tagText tag ++ line [marker] ++ blankLine ++
      line ["package ".toList, package] ++ blankLine ++ importText functions ++ functions.flatMap wrapper := rfl
  have hUnit : unit package tag functions = tagText tag ++ (marker ++ '\n' :: '\n' ::
      ("package ".toList ++ (package ++ '\n' :: '\n' :: (importText functions ++ functions.flatMap wrapper)))) := by
    simp only [hParts, line, blankLine, List.flatten_cons, List.flatten_nil, List.append_assoc, List.append_nil,
      List.cons_append, List.nil_append]
  rw [hUnit, hHeader, text_importText, text_functions]
  simp only [fileLexemes, packageLexemes, textOf, List.flatMap_append, List.flatMap_cons, List.flatMap_nil,
    Lexeme.text, List.append_assoc, List.append_nil]
  rfl

end Wrapper

end GoCommands
