import GoCommands.Proofs.Go.Declared
import GoCommands.Proofs.Wrapper.Layout
import Mathlib.Data.List.Basic

/-! # Declarations of generated source

A generated file is a source file. It declares one struct type without fields for each function, and
methods on these types, but no functions.
-/

namespace GoCommands.Wrapper

open Go Go.Grammar

def wrapperSpec (f : WrappedFunction) : TypeSpec := ⟨typeName f.name, false, .struct [] "struct\x7b\x7d".toList⟩

def constantDecl (type method value : Text) : MethodDecl :=
  ⟨[⟨[], false, .name type⟩], method, ⟨[], some (.single (.name "string".toList))⟩,
    some [.return_ [.string (.string (quote value))]]⟩

def runSignature (i : Invocation) : Signature where
  parameters :=
    if i.usesContext then
      [⟨["ctx".toList], false, .qualified contextPackage contextType "context.Context".toList⟩]
    else []
  result := if i.returnsError then some (.single (.name "error".toList)) else none

/-- The call is returned or stands alone. -/
def runBody (i : Invocation) : List Statement := if i.returnsError then [.return_ [.other]] else [.other]

def runDecl (f : WrappedFunction) : MethodDecl :=
  ⟨[⟨[], false, .name (typeName f.name)⟩], "Run".toList, runSignature f.invocation, some (runBody f.invocation)⟩

def descriptionDeclarations (f : WrappedFunction) : List Declaration :=
  match f.description with
  | some description => [.method (constantDecl (typeName f.name) "Description".toList description)]
  | .none => []

def wrapperDeclarations (f : WrappedFunction) : List Declaration :=
  [.types [wrapperSpec f], .method (runDecl f), .method (constantDecl (typeName f.name) "Name".toList f.name)] ++
    descriptionDeclarations f

def importDeclarations (functions : List WrappedFunction) : List Declaration :=
  if functions.any (·.invocation.usesContext) then [.imports [⟨.none, .string (quote contextPackage)⟩]] else []

def unitDeclarations (package : Text) (functions : List WrappedFunction) : List Declaration :=
  .package package :: importDeclarations functions ++ functions.flatMap wrapperDeclarations

theorem item_package (g : Grammar) (before : List Trivia) (package : Text) (rest : List Lexeme) :
    g.item (⟨before, .keyword .package⟩ :: ⟨[space], .word package⟩ :: rest) =
      some ((.package package, true), rest) :=
  rfl

theorem item_import (g : Grammar) (literal : Text) (rest : List Lexeme) :
    g.item (⟨[gap], .keyword .import_⟩ :: ⟨[space], .string literal⟩ :: rest) =
      some ((.imports [⟨.none, .string literal⟩], true), rest) :=
  rfl

theorem item_type (d : Nat) (f : WrappedFunction) (rest : List Lexeme) :
    (ofDepth (d + 2)).item (typeLexemes f ++ rest) = some ((.types [wrapperSpec f], false), rest) := by
  have hSource : ∀ rest : List Lexeme, sourceOf (Reader.consumed (⟨[space], .keyword .struct⟩ ::
      ⟨[], .symbol .braceOpen⟩ :: ⟨[], .symbol .braceClose⟩ :: rest) rest) = "struct\x7b\x7d".toList := by
    intro rest
    have hLength : (rest.length + 1 + 1 + 1) - rest.length = 3 := by omega
    simp only [Reader.consumed, List.length_cons, hLength]
    rfl
  rw [wrapperSpec, ← hSource rest]
  rfl

theorem item_constant (d : Nat) (type method value : Text) (rest : List Lexeme) :
    (ofDepth (d + 8)).item (constantLexemes type method value ++ rest) =
      some ((.method (constantDecl type method value), true), rest) := by
  let close : List Lexeme := ⟨[newLine], .symbol .braceClose⟩ :: rest
  let literal : List Lexeme := ⟨[space], .string (quote value)⟩ :: close
  -- The literal is the whole expression: nothing is read before it and nothing behind it.
  have hItem : (ofDepth (d + 8)).item (constantLexemes type method value ++ rest) =
      some ((.method ⟨[⟨[], false, .name type⟩], method, ⟨[], some (.single (.name "string".toList))⟩,
        some [.return_ [if literal.length == literal.length && close.length == close.length then
          .string (.string (quote value)) else .other]]⟩, true), rest) := rfl
  rw [hItem, beq_self_eq_true, beq_self_eq_true]
  rfl

/-- A name that has no meaning of its own in an expression. -/
theorem operand_word (g : Grammar) (fl : Follow) {name : Text} (hName : isPredeclared name = false)
    (before : List Trivia) (rest : List Lexeme) :
    g.operand fl (⟨before, .word name⟩ :: rest) = some (.named .bare, rest) := by
  have hType : takesType name = false := by
    rw [Bool.eq_false_iff] at hName ⊢
    intro hTakes
    refine hName ?_
    simp only [takesType, Bool.or_eq_true, beq_iff_eq] at hTakes
    rcases hTakes with rfl | rfl <;> decide
  simp only [operand, hType, hName, Bool.false_and, Bool.false_eq_true, if_false]

theorem isPredeclared_of_isExported {name : Text} (h : CommandName.isExported name) :
    isPredeclared name = false := by
  rw [Bool.eq_false_iff]
  intro hMem
  simp only [isPredeclared, List.contains_eq_mem, decide_eq_true_eq, List.mem_cons, List.not_mem_nil,
    or_false] at hMem
  rcases hMem with rfl | rfl | rfl | rfl | rfl | rfl <;> exact absurd h (by decide)

theorem item_method {g : Grammar} {type name : Text} {ls behind rest : List Lexeme} {signature : Signature}
    {body : Option (List Statement)}
    (hSignature : g.signature true (⟨[], .symbol .parenOpen⟩ :: ls) = some (signature, behind))
    (hBody : g.body? behind = some (body, rest)) :
    g.item (methodStart type name ++ ls) =
      some ((.method ⟨[⟨[], false, .name type⟩], name, signature, body⟩, true), rest) := by
  have hMethod : g.method ((methodStart type name ++ ls).tail) =
      some (.method ⟨[⟨[], false, .name type⟩], name, signature, body⟩, rest) := by
    show Option.bind (g.signature true (⟨[], .symbol .parenOpen⟩ :: ls)) _ = _
    rw [hSignature]
    show Option.bind (g.body? behind) _ = _
    rw [hBody]
    rfl
  have hFunction : g.function ((methodStart type name ++ ls).tail) = .none := rfl
  simp only [methodStart, List.cons_append, List.nil_append, List.tail_cons] at hMethod hFunction
  simp only [methodStart, List.cons_append, List.nil_append, item, hFunction, hMethod, Option.none_or]

section

variable {f : WrappedFunction} (hName : CommandName.isExported f.name) (d : Nat) (rest : List Lexeme)
include hName

theorem expr_call (before : Trivia) (fl : Follow) (hLine : fl.line = true) :
    (ofDepth (d + 3)).expr fl (callLexemes before f ++ ⟨[newLine], .symbol .braceClose⟩ :: rest) =
      some (.other, ⟨[newLine], .symbol .braceClose⟩ :: rest) := by
  obtain ⟨line, body, send, step⟩ := fl
  cases hLine
  have hOperand := fun g rest => operand_word g ⟨true, body, send, step⟩ (isPredeclared_of_isExported hName)
    [before] rest
  cases hContext : f.invocation.usesContext with
  | true =>
    simp only [callLexemes, hContext, ofDepth, exprStep, primary, List.cons_append, afterUnary, hOperand]
    rfl
  | false =>
    simp only [callLexemes, hContext, ofDepth, exprStep, primary, List.cons_append, afterUnary, hOperand]
    rfl

theorem returned_call :
    (ofDepth (d + 3)).returned (callLexemes space f ++ ⟨[newLine], .symbol .braceClose⟩ :: rest) =
      some ([.other], ⟨[newLine], .symbol .braceClose⟩ :: rest) := by
  have hAhead : ∀ rest, Reader.ahead true (callLexemes space f ++ rest) = some (.word f.name) := fun _ => rfl
  have hFuel : ∀ rest, ∃ n, (callLexemes space f ++ rest).length = n + 1 := fun _ => ⟨_, rfl⟩
  obtain ⟨n, hn⟩ := hFuel (⟨[newLine], .symbol .braceClose⟩ :: rest)
  simp only [returned, hAhead, expressions, hn, Reader.separated, expr_call hName d rest space .ending rfl]
  rfl

theorem simpleStatement_call :
    (ofDepth (d + 3)).simpleStatement (callLexemes indent f ++ ⟨[newLine], .symbol .braceClose⟩ :: rest) =
      some ((.other, false), ⟨[newLine], .symbol .braceClose⟩ :: rest) := by
  rw [simpleStatement, simple, expr_call hName d rest indent _ rfl]
  rfl

theorem statement_body : ∃ s last, runBody f.invocation = [s] ∧
    (ofDepth (d + 4)).statement (bodyLexemes f ++ ⟨[newLine], .symbol .braceClose⟩ :: rest) =
      some ((s, last), ⟨[newLine], .symbol .braceClose⟩ :: rest) := by
  have hPredeclared := isPredeclared_of_isExported hName
  rw [bodyLexemes, runBody]
  split
  · refine ⟨.return_ [.other], true, rfl, ?_⟩
    have hReturned := returned_call hName d rest
    show (ofDepth (d + 3)).statementStep (⟨[indent], .keyword .return_⟩ :: (callLexemes space f ++ _)) = _
    simp only [statementStep, keywordStatement, hReturned]
    rfl
  · refine ⟨.other, false, rfl, ?_⟩
    have hSimple := simpleStatement_call hName d rest
    show (ofDepth (d + 3)).statementStep (callLexemes indent f ++ _) = _
    rw [callLexemes, List.append_assoc, List.append_assoc, List.cons_append] at hSimple ⊢
    simp only [statementStep, hPredeclared, Bool.not_false, Bool.true_and, hSimple]
    rfl

theorem block_body : (ofDepth (d + 5)).block (⟨[space], .symbol .braceOpen⟩ ::
    (bodyLexemes f ++ ⟨[newLine], .symbol .braceClose⟩ :: rest)) = some (runBody f.invocation, rest) := by
  obtain ⟨s, last, hBody, hStatement⟩ := statement_body hName d rest
  have hEnds : listEnds (bodyLexemes f ++ ⟨[newLine], .symbol .braceClose⟩ :: rest) = false := by
    rw [bodyLexemes]
    split <;> rfl
  have hLabel : emptyLabel? (bodyLexemes f ++ ⟨[newLine], .symbol .braceClose⟩ :: rest) = .none := by
    rw [bodyLexemes]
    split
    · rfl
    · rw [callLexemes, List.append_assoc, List.append_assoc, List.cons_append]
      simp only [emptyLabel?, isPredeclared_of_isExported hName, Bool.not_false, Bool.true_and]
      rfl
  have hList : (ofDepth (d + 4)).statementList
      (bodyLexemes f ++ ⟨[newLine], .symbol .braceClose⟩ :: rest) =
      some ([s], ⟨[newLine], .symbol .braceClose⟩ :: rest) := by
    rw [statementList, statements]
    simp only [hEnds, hLabel, hStatement, Bool.false_eq_true, if_false]
    rfl
  show Option.bind ((ofDepth (d + 4)).statementList (bodyLexemes f ++ _)) _ = _
  rw [hList, hBody]
  rfl

omit hName in
theorem signature_run : (ofDepth (d + 6)).signature true (⟨[], .symbol .parenOpen⟩ ::
    (parameterLexemes f.invocation ++ ⟨[], .symbol .parenClose⟩ :: (resultLexemes f.invocation ++
      ⟨[space], .symbol .braceOpen⟩ :: rest))) =
    some (runSignature f.invocation, ⟨[space], .symbol .braceOpen⟩ :: rest) := by
  have hSource : ∀ rest : List Lexeme, sourceOf (Reader.consumed (⟨[space], .word contextPackage⟩ ::
      ⟨[], .symbol .dot⟩ :: ⟨[], .word contextType⟩ :: rest) rest) = "context.Context".toList := by
    intro rest
    have hLength : (rest.length + 1 + 1 + 1) - rest.length = 3 := by omega
    simp only [Reader.consumed, List.length_cons, hLength]
    rfl
  rw [parameterLexemes, runSignature]
  cases f.invocation.usesContext with
  | false =>
    rw [resultLexemes]
    cases f.invocation.returnsError <;> rfl
  | true =>
    rw [if_pos rfl, if_pos rfl, ← hSource (⟨[], .symbol .parenClose⟩ :: (resultLexemes f.invocation ++
      ⟨[space], .symbol .braceOpen⟩ :: rest)), resultLexemes]
    cases f.invocation.returnsError <;> rfl

theorem item_run : (ofDepth (d + 6)).item (runLexemes f ++ rest) = some ((.method (runDecl f), true), rest) := by
  have hSignature := signature_run (f := f) d (bodyLexemes f ++ ⟨[newLine], .symbol .braceClose⟩ :: rest)
  have hBody : (ofDepth (d + 6)).body? (⟨[space], .symbol .braceOpen⟩ ::
      (bodyLexemes f ++ ⟨[newLine], .symbol .braceClose⟩ :: rest)) = some (some (runBody f.invocation), rest) := by
    show Option.bind ((ofDepth (d + 6)).block _) _ = _
    rw [block_body hName (d + 1) rest]
    rfl
  simp only [runLexemes, List.append_assoc, List.cons_append, List.nil_append]
  exact item_method hSignature hBody

end

def StartsLine (ls : List Lexeme) : Prop := ∃ l rest, ls = l :: rest ∧ l.onNewLine

/-- Lexemes that are read as a file with these declarations. -/
def Declares (g : Grammar) (ls : List Lexeme) (declarations : List Declaration) : Prop :=
  ∀ fuel follows, ls.length ≤ fuel → ∃ items, g.itemsOf fuel follows ls = some items ∧
    items.map Item.declaration = declarations

namespace Declares

variable {g : Grammar} {l : Lexeme} {ls rest : List Lexeme} {last : Bool} {declarations : List Declaration}

theorem cons {declaration : Declaration} (hItem : g.item (l :: ls) = some ((declaration, last), rest))
    (hToken : (l.token == .eof) = false) (hLine : StartsLine rest) (hRest : Declares g rest declarations)
    (hSuffix : rest <:+ ls) : Declares g (l :: ls) (declaration :: declarations) := by
  intro fuel follows hFuel
  obtain ⟨fuel, rfl⟩ := Nat.exists_eq_add_of_le' (Nat.le_trans (Nat.le_add_left 1 _) hFuel)
  rw [List.length_cons, Nat.add_le_add_iff_right] at hFuel
  obtain ⟨items, hItems, hDeclared⟩ := hRest fuel true (Nat.le_trans hSuffix.length_le hFuel)
  obtain ⟨next, more, rfl, hNew⟩ := hLine
  have hEnd : Reader.terminator (next :: more) = some (next :: more) := by
    rw [Reader.terminator, if_pos hNew]
  refine ⟨⟨l.before, follows, declaration⟩ :: items, ?_, congrArg _ hDeclared⟩
  rw [itemsOf, hToken]
  simp only [hItem, hEnd, hItems, Bool.false_eq_true, if_false, Option.bind_eq_bind, Option.bind_some]

theorem eof (g : Grammar) (ending : Trivia) : Declares g [⟨[ending], .eof⟩] [] := by
  intro fuel follows hFuel
  obtain ⟨fuel, rfl⟩ := Nat.exists_eq_add_of_le' hFuel
  exact ⟨[], rfl, rfl⟩

end Declares

section

variable {f : WrappedFunction} (d : Nat) {rest : List Lexeme} {declarations : List Declaration}
  (hLine : StartsLine rest) (hRest : Declares (ofDepth (d + 8)) rest declarations)
include hLine hRest

theorem declares_constant (type method value : Text) :
    Declares (ofDepth (d + 8)) (constantLexemes type method value ++ rest)
      (.method (constantDecl type method value) :: declarations) :=
  Declares.cons (item_constant d type method value rest) rfl hLine hRest ⟨_, rfl⟩

theorem declares_run (hName : CommandName.isExported f.name) :
    Declares (ofDepth (d + 8)) (runLexemes f ++ rest) (.method (runDecl f) :: declarations) :=
  Declares.cons (item_run hName (d + 2) rest) rfl hLine hRest ⟨_, rfl⟩

theorem declares_type :
    Declares (ofDepth (d + 8)) (typeLexemes f ++ rest) (.types [wrapperSpec f] :: declarations) :=
  Declares.cons (item_type (d + 6) f rest) rfl hLine hRest ⟨_, rfl⟩

end

theorem startsLine_constant (type method value : Text) (rest : List Lexeme) :
    StartsLine (constantLexemes type method value ++ rest) := ⟨_, _, rfl, rfl⟩

theorem startsLine_run (f : WrappedFunction) (rest : List Lexeme) : StartsLine (runLexemes f ++ rest) :=
  ⟨_, _, rfl, rfl⟩

section

variable {ending : Trivia} (hEnding : StartsLine [⟨[ending], .eof⟩]) {functions : List WrappedFunction}
include hEnding

theorem startsLine_functions (functions : List WrappedFunction) :
    StartsLine (functions.flatMap wrapperLexemes ++ [⟨[ending], .eof⟩]) := by
  cases functions with
  | nil => exact hEnding
  | cons f functions => exact ⟨_, _, rfl, rfl⟩

theorem declares_functions (d : Nat) (hNames : ∀ f ∈ functions, CommandName.isExported f.name) :
    Declares (ofDepth (d + 8)) (functions.flatMap wrapperLexemes ++ [⟨[ending], .eof⟩])
      (functions.flatMap wrapperDeclarations) := by
  induction functions with
  | nil => exact Declares.eof _ ending
  | cons f functions ih =>
    obtain ⟨hName, hNames⟩ := List.forall_mem_cons.mp hNames
    have hLine := startsLine_functions hEnding functions
    have hDescription : Declares (ofDepth (d + 8)) (descriptionLexemes f ++
        (functions.flatMap wrapperLexemes ++ [⟨[ending], .eof⟩]))
          (descriptionDeclarations f ++ functions.flatMap wrapperDeclarations) ∧
        StartsLine (descriptionLexemes f ++ (functions.flatMap wrapperLexemes ++ [⟨[ending], .eof⟩])) := by
      rw [descriptionLexemes, descriptionDeclarations]
      cases f.description with
      | some description => exact ⟨declares_constant d hLine (ih hNames) _ _ _, startsLine_constant _ _ _ _⟩
      | none => exact ⟨ih hNames, hLine⟩
    rw [List.flatMap_cons, List.flatMap_cons, List.append_assoc]
    simp only [wrapperLexemes, wrapperDeclarations, List.append_assoc]
    refine declares_type d (startsLine_run _ _) <| declares_run d (startsLine_constant _ _ _ _) ?_ hName
    exact declares_constant d hDescription.2 hDescription.1 _ _ _

theorem declares_unit (d : Nat) (package : Text) (tag : Option Text)
    (hNames : ∀ f ∈ functions, CommandName.isExported f.name) :
    Declares (ofDepth (d + 8)) (fileLexemes ending package tag functions) (unitDeclarations package functions) := by
  have hFunctions := declares_functions hEnding d hNames
  have hLine := startsLine_functions hEnding functions
  have hImport : Declares (ofDepth (d + 8)) (importLexemes functions ++
      (functions.flatMap wrapperLexemes ++ [⟨[ending], .eof⟩]))
        (importDeclarations functions ++ functions.flatMap wrapperDeclarations) ∧
      StartsLine (importLexemes functions ++ (functions.flatMap wrapperLexemes ++ [⟨[ending], .eof⟩])) := by
    rw [importLexemes, importDeclarations]
    split
    · exact ⟨Declares.cons (item_import _ _ _) rfl hLine hFunctions (List.suffix_cons _ _), ⟨_, _, rfl, rfl⟩⟩
    · exact ⟨hFunctions, hLine⟩
  simp only [fileLexemes, packageLexemes, List.append_assoc]
  exact Declares.cons (item_package _ _ _ _) rfl hImport.2 hImport.1 (List.suffix_cons _ _)

/-- A generated file is a source file, whatever white space with a line break ends it. -/
theorem parse_file (hSpaced : Spaced [ending]) {package : Text} {tag : Option Text} (hPackage : IsWord package)
    (hTag : ∀ t ∈ tag, '\n' ∉ t) (hNames : ∀ f ∈ functions, IsWord f.name ∧ CommandName.isExported f.name) :
    ∃ file, SourceFile.parse (textOf (fileLexemes ending package tag functions)) = some file ∧
      file.declarations = unitDeclarations package functions := by
  have hWords : ∀ f ∈ functions, IsWord f.name := fun f hf => (hNames f hf).1
  have hDepth : ∃ d, 4 * (fileLexemes ending package tag functions).length = d + 8 := by
    have hLength : 2 ≤ (fileLexemes ending package tag functions).length := by
      simp only [fileLexemes, packageLexemes, List.length_append, List.length_cons]
      omega
    exact ⟨_, (Nat.sub_add_cancel (by omega)).symm⟩
  obtain ⟨d, hDepth⟩ := hDepth
  obtain ⟨items, hItems, hDeclared⟩ := declares_unit hEnding d package tag (fun f hf => (hNames f hf).2)
    (fileLexemes ending package tag functions).length false (Nat.le_refl _)
  refine ⟨⟨items⟩, ?_, hDeclared⟩
  rw [SourceFile.parse, lexemes_unit hSpaced hPackage hTag hWords]
  rw [Option.bind_some, SourceFile.ofLexemes, hDepth, hItems, Option.map_some]

end

section

variable {file : SourceFile} {package : Text} {functions : List WrappedFunction}
  (h : file.declarations = unitDeclarations package functions)
include h

theorem packageName_unit : file.packageName = some package := by
  rw [SourceFile.packageName, h]
  rfl

/-- What is read from declarations, but not from package clauses and imports, is read from the wrappers. -/
theorem flatMap_items {β : Type} {read : Item → List β} (hRead : ∀ item, read item = read ⟨[], false, item.declaration⟩)
    (hPackage : read ⟨[], false, .package package⟩ = []) (hImports : ∀ specs, read ⟨[], false, .imports specs⟩ = []) :
    file.items.flatMap read =
      functions.flatMap fun f => (wrapperDeclarations f).flatMap fun declaration => read ⟨[], false, declaration⟩ := by
  have hItems : file.items.flatMap read = file.declarations.flatMap fun declaration => read ⟨[], false, declaration⟩ := by
    rw [SourceFile.declarations, List.flatMap_map]
    exact congrArg (List.flatMap · file.items) (funext hRead)
  have hImport : (importDeclarations functions).flatMap (fun declaration => read ⟨[], false, declaration⟩) = [] := by
    rw [importDeclarations]
    split
    · rw [List.flatMap_singleton, hImports]
    · rfl
  rw [hItems, h, unitDeclarations, List.cons_append, List.flatMap_cons, List.flatMap_append, hPackage, hImport,
    List.flatMap_assoc]
  rfl

theorem typeSpecs_unit : file.typeSpecs = functions.map wrapperSpec := by
  have hSpecs : ∀ f, (wrapperDeclarations f).flatMap (fun declaration => Item.typeSpecs ⟨[], false, declaration⟩) =
      [wrapperSpec f] := by
    intro f
    rw [wrapperDeclarations, descriptionDeclarations]
    cases f.description <;> rfl
  rw [SourceFile.typeSpecs, flatMap_items h (fun _ => rfl) rfl (fun _ => rfl), List.map_eq_flatMap]
  exact congrArg (List.flatMap · functions) (funext hSpecs)

theorem functions_unit : file.functions = [] := by
  have hNone : ∀ f, (wrapperDeclarations f).flatMap
      (fun declaration => (Item.function? ⟨[], false, declaration⟩).toList) = [] := by
    intro f
    rw [wrapperDeclarations, descriptionDeclarations]
    cases f.description <;> rfl
  have hItems : file.items.flatMap (fun item => item.function?.toList) = _ :=
    flatMap_items h (fun _ => rfl) rfl (fun _ => rfl)
  rw [SourceFile.functions, List.filterMap_eq_flatMap_toList, hItems, List.flatMap_eq_nil_iff]
  exact fun f _ => hNone f

end

/-- What is written is a source file of the package that declares a wrapper type for each function. -/
theorem parse_normalize_unit {package : Text} {tag : Option Text} {functions : List WrappedFunction}
    (hPackage : IsWord package) (hTag : ∀ t ∈ tag, '\n' ∉ t)
    (hNames : ∀ f ∈ functions, IsWord f.name ∧ CommandName.isExported f.name) :
    ∃ file, SourceFile.parse (Layout.normalize (unit package tag functions)) = some file ∧
      file.packageName = some package ∧ file.typeSpecs = functions.map wrapperSpec ∧
      file.functions = [] := by
  have hWords : ∀ f ∈ functions, IsWord f.name := fun f hf => (hNames f hf).1
  obtain ⟨file, hParse, hDeclared⟩ := parse_file ⟨_, _, rfl, rfl⟩ spaced_newLine hPackage hTag hNames
  refine ⟨file, ?_, packageName_unit hDeclared, typeSpecs_unit hDeclared, functions_unit hDeclared⟩
  rw [normalize_unit hPackage hTag hWords]
  exact hParse

end GoCommands.Wrapper
