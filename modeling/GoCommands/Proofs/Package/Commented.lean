import GoCommands.Proofs.Go.Commented.Items
import GoCommands.Proofs.Go.Invocation
import GoCommands.Proofs.Package.Scanning

/-! # Scans do not see comments

A scan reads declared names, the names that types rest on, and whether a type is one of a few known ones. A comment
matters only if it is read where the name of a type should stand.
-/

namespace GoCommands

namespace Go

variable {c : Text}

theorem NoteCommented.getD {note note' : Option Text} {t t' : Text} (hNote : NoteCommented c note note')
    (h : Text.Commented c t t') : Text.Commented c (note.getD t) (note'.getD t') := by
  rcases hNote with rfl | rfl
  · cases note' with
    | none => exact h
    | some note => exact .refl c note
  · exact .inr List.infix_rfl

namespace TypeExpr

variable {type type' : TypeExpr}

theorem baseName_commented (h : TypeExpr.Commented c type type') :
    Text.Commented c type.baseName type'.baseName := by
  induction type using TypeExpr.baseName.induct generalizing type' with
  | case1 id =>
    cases h
    exact .refl c id
  | case2 package id source =>
    cases h with
    | qualified h => exact h
  | case3 base ih =>
    cases h with
    | generic h =>
      have hBase := ih h
      exact hBase
  | case4 note target ih =>
    cases h with
    | pointer hNote h => exact hNote.getD (ih h)
  | case5 note inner ih =>
    cases h with
    | parens hNote h => exact hNote.getD (ih h)
  | case6 fields source =>
    cases h with
    | struct _ _ h => exact h
  | case7 source =>
    cases h with
    | other h => exact h

theorem unwrapped_commented (h : TypeExpr.Commented c type type') (hClear : type'.standIn ≠ some c) :
    Option.Rel (TypeExpr.Commented c) type.unwrapped type'.unwrapped := by
  induction type using TypeExpr.unwrapped.induct generalizing type' with
  | case1 note inner =>
    cases h with
    | parens hNote h =>
      rcases hNote with rfl | rfl
      · exact .none
      · exact absurd rfl hClear
  | case2 inner ih =>
    cases h with
    | parens hNote h =>
      rcases hNote with rfl | rfl
      · have hInner := ih h hClear
        exact hInner
      · exact absurd rfl hClear
  | case3 type hNoted hPlain =>
    have hType := h
    cases h with
    | @parens note _ inner =>
      cases note with
      | none => exact absurd rfl (hPlain inner)
      | some note => exact absurd rfl (hNoted note inner)
    | _ => exact .some hType

section

variable (h : TypeExpr.Commented c type type') (hClear : type'.standIn ≠ some c)
include h hClear

theorem isNamed_commented (id : Text) : type'.isNamed id = type.isNamed id := by
  rw [isNamed, isNamed]
  refine Reader.rel_elim (unwrapped_commented h hClear) ?_ fun hType => ?_
  · rfl
  · cases hType <;> rfl

theorem isMember_commented (package id : Text) : type'.isMember package id = type.isMember package id := by
  rw [isMember, isMember]
  refine Reader.rel_elim (unwrapped_commented h hClear) ?_ fun hType => ?_
  · rfl
  · cases hType <;> rfl

theorem accepts_commented (context : ContextImport) : context.accepts type' = context.accepts type := by
  cases context with
  | named package => exact isMember_commented h hClear package contextType
  | dot => exact isNamed_commented h hClear contextType
  | notImported => rfl

end

end TypeExpr

theorem parameterTypes_commented {ps ps' : List Parameter} (h : List.Forall₂ (Parameter.Commented c) ps ps') :
    List.Forall₂ (Option.Rel (TypeExpr.Commented c)) (parameterTypes ps) (parameterTypes ps') := by
  induction h with
  | nil => exact .nil
  | @cons p p' _ _ hParameter _ ih =>
    rw [parameterTypes, parameterTypes, List.flatMap_cons, List.flatMap_cons, ← parameterTypes, ← parameterTypes,
      hParameter.names, hParameter.variadic]
    refine List.rel_append ?_ ih
    have hType : Option.Rel (TypeExpr.Commented c) (if p.variadic then none else some p.type)
        (if p.variadic then none else some p'.type) := Reader.rel_ite rfl .none (.some hParameter.type)
    induction max p.names.length 1 with
    | zero => exact .nil
    | succ n ih => exact .cons hType ih

theorem resultTypes_commented {result result' : Option Result} (h : Option.Rel (Result.Commented c) result result') :
    List.Forall₂ (Option.Rel (TypeExpr.Commented c)) (resultTypes result) (resultTypes result') := by
  cases h with
  | none => exact .nil
  | some h =>
    cases h with
    | single h => exact .cons (.some h) .nil
    | list h => exact parameterTypes_commented h

/-- No type that the signature is told by has the comment in its place. -/
def Signature.Clear (c : Text) (s : Signature) : Prop :=
  ∀ type ∈ parameterTypes s.parameters ++ resultTypes s.result, type.bind TypeExpr.standIn ≠ some c

instance (c : Text) (s : Signature) : Decidable (s.Clear c) := List.decidableBAll _ _

section

variable {types types' : List (Option TypeExpr)} (h : List.Forall₂ (Option.Rel (TypeExpr.Commented c)) types types')
  (hClear : ∀ type ∈ types', type.bind TypeExpr.standIn ≠ some c)
include h hClear

theorem use_commented (context : ContextImport) : context.use types' = context.use types := by
  rcases h with _ | ⟨hType | _, _ | _⟩
  case cons.some.nil =>
    rw [ContextImport.use, ContextImport.use,
      TypeExpr.accepts_commented hType (hClear _ List.mem_cons_self) context]
  all_goals rfl

theorem errorReturn_commented : errorReturn types' = errorReturn types := by
  rcases h with _ | ⟨hType | _, _ | _⟩
  case cons.some.nil =>
    rw [errorReturn, errorReturn, TypeExpr.isNamed_commented hType (hClear _ List.mem_cons_self)]
  all_goals rfl

end

theorem Signature.invocation_commented {s s' : Signature} (h : Signature.Commented c s s') (hClear : s'.Clear c)
    (context : ContextImport) : s'.invocation context = s.invocation context := by
  rw [invocation_eq, invocation_eq,
    use_commented (parameterTypes_commented h.parameters) (List.forall_mem_append.mp hClear).1,
    errorReturn_commented (resultTypes_commented h.result) (List.forall_mem_append.mp hClear).2]

theorem receiverName_commented {ps ps' : List Parameter} (h : List.Forall₂ (Parameter.Commented c) ps ps') :
    Option.Rel (Text.Commented c) (receiverName ps) (receiverName ps') := by
  induction h with
  | nil => exact .none
  | @cons p p' _ _ hParameter _ ih =>
    rw [receiverName, receiverName, List.find?_cons, List.find?_cons, hParameter.variadic]
    cases p.variadic with
    | true => exact ih
    | false => exact .some (TypeExpr.baseName_commented hParameter.type)

/-- The literal that a body returns which does nothing else. -/
def returnedLiteral : Option (List Statement) → Option Token
  | some [.return_ [.string literal]] => some literal
  | _ => none

theorem returnedLiteral_eq_some_iff {body : Option (List Statement)} {literal : Token} :
    returnedLiteral body = some literal ↔ body = some [.return_ [.string literal]] := by
  constructor
  · intro h
    rw [returnedLiteral.eq_def] at h
    split at h
    · cases h
      rfl
    · cases h
  · rintro rfl
    rfl

theorem returnedLiteral_commented {body body' : Option (List Statement)}
    (h : Option.Rel (List.Forall₂ (Statement.Commented c)) body body') : returnedLiteral body' = returnedLiteral body := by
  rcases h with (_ | ⟨hStatement, _ | _⟩) | _
  case some.cons.nil => cases hStatement <;> rfl
  case some.cons.cons => rcases hStatement with (_ | ⟨_ | _, _ | _⟩) | _ | _ <;> rfl
  all_goals rfl

/-- The value of a literal that is returned with results of these types. -/
def stringResult (literal : Token) : List (Option TypeExpr) → Option Text
  | [some type] => if type.isNamed "string".toList then stringValue literal else none
  | _ => none

theorem MethodDecl.constantString_eq (m : MethodDecl) : m.constantString =
    match parameterTypes m.signature.parameters with
    | [] => (returnedLiteral m.body).bind (stringResult · (resultTypes m.signature.result))
    | _ => none := by
  rw [constantString]
  cases hBody : returnedLiteral m.body with
  | some literal =>
    rw [returnedLiteral_eq_some_iff.mp hBody]
    rcases parameterTypes m.signature.parameters with _ | _
    · rcases resultTypes m.signature.result with _ | ⟨_ | _, _ | _⟩ <;> rfl
    · rfl
  | none =>
    split
    · rename_i hReturns
      rw [returnedLiteral_eq_some_iff.mpr hReturns] at hBody
      cases hBody
    · split <;> rfl

theorem stringResult_commented {types types' : List (Option TypeExpr)}
    (h : List.Forall₂ (Option.Rel (TypeExpr.Commented c)) types types')
    (hClear : ∀ type ∈ types', type.bind TypeExpr.standIn ≠ some c) (literal : Token) :
    stringResult literal types' = stringResult literal types := by
  rcases h with _ | ⟨hType | _, _ | _⟩
  case cons.some.nil =>
    rw [stringResult, stringResult, TypeExpr.isNamed_commented hType (hClear _ List.mem_cons_self)]
  all_goals rfl

namespace MethodDecl

variable {m m' : MethodDecl} (h : MethodDecl.Commented c m m')
include h

theorem receiverName_eq (hClear : ∀ name ∈ receiverName m'.receiver, ¬ c <:+: name) :
    receiverName m'.receiver = receiverName m.receiver := by
  have hReceiver := receiverName_commented h.receiver
  generalize receiverName m.receiver = name, receiverName m'.receiver = name' at *
  cases hReceiver with
  | none => rfl
  | some hName => rw [hName.eq_of_absent (hClear _ rfl)]

theorem constantString_commented (hClear : m'.signature.Clear c) : m'.constantString = m.constantString := by
  have hParameters := parameterTypes_commented h.signature.parameters
  have hResult := stringResult_commented (resultTypes_commented h.signature.result) (List.forall_mem_append.mp hClear).2
  rw [constantString_eq, constantString_eq, returnedLiteral_commented h.body]
  simp only [hResult]
  generalize parameterTypes m.signature.parameters = ps, parameterTypes m'.signature.parameters = ps' at hParameters ⊢
  cases hParameters <;> rfl

end MethodDecl

end Go

namespace SubcommandLink

variable {c : Text} {field field' : Go.Field} {parent : Text}

theorem ofField_commented (h : Go.FieldOf.Commented c field field')
    (hClear : ∀ link ∈ ofField parent field', ¬ c <:+: link.childType) : ofField parent field' = ofField parent field := by
  have hTag : annotationOf field' = annotationOf field := by rw [annotationOf, annotationOf, h.tag]
  rw [ofField] at hClear
  rw [ofField, ofField, hTag]
  cases hMarked : annotationOf field with
  | none => rfl
  | some annotation =>
    rw [hTag, hMarked] at hClear
    have hName : field'.type.baseName = field.type.baseName := by
      refine (Go.TypeExpr.baseName_commented h.type).eq_of_absent ?_
      obtain ⟨name, hMem⟩ : ∃ name, name ∈ fieldNames field' := by
        rw [fieldNames]
        split
        · exact ⟨_, List.mem_cons_self⟩
        · rename_i hNames
          exact List.exists_mem_of_ne_nil _ (by simpa using hNames)
      exact hClear _ (List.mem_map_of_mem hMem)
    have hFieldNames : fieldNames field' = fieldNames field := by rw [fieldNames, fieldNames, h.names, hName]
    simp only [hFieldNames, hName]

theorem ofFields_commented {fields fields' : List Go.Field} (h : List.Forall₂ (Go.FieldOf.Commented c) fields fields')
    (hClear : ∀ link ∈ ofFields parent fields', ¬ c <:+: link.childType) :
    ofFields parent fields' = ofFields parent fields := by
  induction h with
  | nil => rfl
  | cons hField _ ih =>
    rw [ofFields, List.flatMap_cons, ← ofFields] at hClear ⊢
    obtain ⟨hFirst, hRest⟩ := List.forall_mem_append.mp hClear
    rw [ofField_commented hField hFirst, ih hRest, ofFields, ofFields, List.flatMap_cons]

end SubcommandLink

namespace Go

variable {c : Text}

/-- No link of the type, if it can be a command, gets the name of its child from the comment. -/
def TypeSpec.Clear (c : Text) (spec : TypeSpec) : Prop :=
  spec.isCandidate → ∀ link ∈ spec.links, ¬ c <:+: link.childType

instance (c : Text) (spec : TypeSpec) : Decidable (spec.Clear c) :=
  inferInstanceAs (Decidable (spec.isCandidate → ∀ link ∈ spec.links, ¬ c <:+: link.childType))

/-- The comment is in no name and no type that a scan reads from the method. -/
def MethodDecl.Clear (c : Text) (m : MethodDecl) : Prop :=
  m.name ∈ [PackageScan.runMethodName, PackageScan.descriptionMethodName] →
    (∀ name ∈ receiverName m.receiver, ¬ c <:+: name) ∧ m.signature.Clear c

instance (c : Text) (m : MethodDecl) : Decidable (m.Clear c) :=
  inferInstanceAs (Decidable (m.name ∈ [_, _] → (∀ name ∈ receiverName m.receiver, ¬ c <:+: name) ∧ m.signature.Clear c))

/-- A scan reads the comment nowhere in the declaration. -/
def Declaration.Clear (c : Text) : Declaration → Prop
  | .types specs => ∀ spec ∈ specs, spec.Clear c
  | .method m => m.Clear c
  | .function f => CommandName.isExported f.name → f.signature.Clear c
  | _ => True

instance (c : Text) : (declaration : Declaration) → Decidable (declaration.Clear c)
  | .types specs => inferInstanceAs (Decidable (∀ spec ∈ specs, spec.Clear c))
  | .method m => inferInstanceAs (Decidable (m.Clear c))
  | .function f => inferInstanceAs (Decidable (CommandName.isExported f.name → f.signature.Clear c))
  | .package _ | .imports _ | .other => .isTrue trivial

namespace TypeSpec

variable {spec spec' : TypeSpec} (h : TypeSpec.Commented c spec spec')
include h

theorem isCandidate_commented : spec'.isCandidate = spec.isCandidate := by
  obtain ⟨name, isAlias, type⟩ := spec
  obtain ⟨name', isAlias', type'⟩ := spec'
  obtain ⟨rfl, rfl, hType⟩ := h
  cases hType <;> rfl

theorem links_commented (hClear : ∀ link ∈ spec'.links, ¬ c <:+: link.childType) : spec'.links = spec.links := by
  obtain ⟨name, isAlias, type⟩ := spec
  obtain ⟨name', isAlias', type'⟩ := spec'
  obtain ⟨rfl, rfl, hType⟩ := h
  have hStruct := hType
  cases hType with
  | struct => exact SubcommandLink.ofFields_commented (TypeExpr.fields_commented hStruct) hClear
  | _ => rfl

end TypeSpec

end Go

namespace PackageScan

variable {c : Text} (s : PackageScan) (path : Path)

theorem recordType_commented {spec spec' : Go.TypeSpec} (h : Go.TypeSpec.Commented c spec spec')
    (hClear : spec'.Clear c) : s.recordType path spec' = s.recordType path spec := by
  rw [recordType_eq, recordType_eq, h.name, Go.TypeSpec.isCandidate_commented h]
  rw [Go.TypeSpec.Clear, Go.TypeSpec.isCandidate_commented h] at hClear
  cases hCandidate : spec.isCandidate with
  | false => rfl
  | true => rw [Go.TypeSpec.links_commented h (hClear hCandidate)]

theorem recordTypes_commented {specs specs' : List Go.TypeSpec}
    (h : List.Forall₂ (Go.TypeSpec.Commented c) specs specs') (hClear : ∀ spec ∈ specs', spec.Clear c) :
    specs'.foldl (·.recordType path) s = specs.foldl (·.recordType path) s := by
  induction h generalizing s with
  | nil => rfl
  | cons hSpec _ ih =>
    obtain ⟨hFirst, hRest⟩ := List.forall_mem_cons.mp hClear
    rw [List.foldl_cons, List.foldl_cons, recordType_commented s path hSpec hFirst, ih _ hRest]

/-- Methods of other names are not recorded. -/
theorem recordMethod_of_name {m : Go.MethodDecl} (hName : m.name ∉ [runMethodName, descriptionMethodName])
    (context : Go.ContextImport) : s.recordMethod context m = s := by
  obtain ⟨hRun, hDescription⟩ := not_or.mp (mt List.mem_cons.mpr hName)
  have hDescription : m.name ≠ descriptionMethodName := fun hEq => hDescription (List.mem_singleton.mpr hEq)
  rw [recordMethod]
  cases Go.receiverName m.receiver with
  | none => rfl
  | some receiver =>
    simp only [beq_eq_false_iff_ne.mpr hRun, beq_eq_false_iff_ne.mpr hDescription, Bool.false_eq_true, if_false]

theorem recordMethod_commented {m m' : Go.MethodDecl} (h : Go.MethodDecl.Commented c m m') (hClear : m'.Clear c)
    (context : Go.ContextImport) : s.recordMethod context m' = s.recordMethod context m := by
  rw [Go.MethodDecl.Clear, h.name] at hClear
  by_cases hName : m.name ∈ [runMethodName, descriptionMethodName]
  · obtain ⟨hReceiver, hSignature⟩ := hClear hName
    rw [recordMethod, recordMethod, Go.MethodDecl.receiverName_eq h hReceiver, h.name, runInvocation, runInvocation,
      Go.Signature.invocation_commented h.signature hSignature, Go.MethodDecl.constantString_commented h hSignature]
  · rw [recordMethod_of_name s hName, recordMethod_of_name s (h.name ▸ hName)]

theorem recordFunction_commented {f f' : Go.FunctionDecl} (h : Go.FunctionDecl.Commented c f f')
    (hClear : CommandName.isExported f'.name → f'.signature.Clear c) (context : Go.ContextImport) (doc : Option Text) :
    s.recordFunction context path doc f' = s.recordFunction context path doc f := by
  rw [h.name] at hClear
  rw [recordFunction, recordFunction, h.name]
  by_cases hExported : CommandName.isExported f.name
  · rw [Go.Signature.invocation_commented h.signature (hClear hExported)]
  · rw [if_neg hExported, if_neg hExported]

theorem recordItem_commented {item item' : Go.Item} (h : Go.Item.Commented c item item')
    (hClear : item'.declaration.Clear c) (context : Go.ContextImport) :
    s.recordItem context path item' = s.recordItem context path item := by
  rw [recordItem, recordItem, h.doc_eq]
  have hDeclaration := h.declaration
  generalize item.declaration = declaration, item'.declaration = declaration' at *
  cases hDeclaration with
  | function hFunction => exact recordFunction_commented s path hFunction hClear context item.doc
  | method hMethod => exact congrArg Except.ok (recordMethod_commented s hMethod hClear context)
  | types hSpecs => exact congrArg Except.ok (recordTypes_commented s path hSpecs hClear)
  | _ => rfl

theorem recordItems_commented {items items' : List Go.Item} (h : List.Forall₂ (Go.Item.Commented c) items items')
    (hClear : ∀ item ∈ items', item.declaration.Clear c) (context : Go.ContextImport) :
    s.recordItems context path items' = s.recordItems context path items := by
  induction h generalizing s with
  | nil => rfl
  | cons hItem _ ih =>
    obtain ⟨hFirst, hRest⟩ := List.forall_mem_cons.mp hClear
    rw [recordItems, recordItems, recordItem_commented s path hItem hFirst]
    split
    · exact ih _ hRest
    · rfl

end PackageScan

namespace Go.SourceFile

variable {c : Text} {f f' : SourceFile} (h : List.Forall₂ (Item.Commented c) f.items f'.items)
include h

theorem declarations_commented : List.Forall₂ (Declaration.Commented c) f.declarations f'.declarations := by
  rw [declarations, declarations, List.forall₂_map_left_iff, List.forall₂_map_right_iff]
  exact h.imp fun _ _ hItem => hItem.declaration

theorem contextImport_commented : f'.contextImport = f.contextImport := by
  have hImports : f'.imports = f.imports := by
    have hDeclarations := declarations_commented h
    rw [imports, imports]
    generalize f.declarations = declarations, f'.declarations = declarations' at hDeclarations ⊢
    induction hDeclarations with
    | nil => rfl
    | cons hDeclaration _ ih =>
      rw [List.flatMap_cons, List.flatMap_cons, ih]
      cases hDeclaration <;> rfl
  rw [contextImport, contextImport, hImports]

theorem packageName_commented : f'.packageName = f.packageName := by
  have hDeclarations := declarations_commented h
  rw [packageName, packageName]
  generalize f.declarations = declarations, f'.declarations = declarations' at hDeclarations ⊢
  induction hDeclarations with
  | nil => rfl
  | cons hDeclaration _ ih =>
    cases hDeclaration with
    | package name => rfl
    | _ => exact ih

theorem packageDoc_commented : f'.packageDoc = f.packageDoc := by
  rw [packageDoc, packageDoc, packageItem, packageItem]
  generalize f.items = items, f'.items = items' at h ⊢
  induction h with
  | nil => rfl
  | @cons item item' _ _ hItem _ ih =>
    rw [List.find?_cons, List.find?_cons]
    have hDeclaration := hItem.declaration
    generalize item.declaration = declaration, item'.declaration = declaration' at hDeclaration ⊢
    cases hDeclaration with
    | package name => exact hItem.doc_eq
    | _ => exact ih

end Go.SourceFile

namespace PackageScan

variable {c source source' : Text}

/-- A comment inside a declaration does not change what is scanned, unless it is read in the place of a name. -/
theorem scanFile_insertedInside (h : Go.InsertedInside c source source')
    (hClear : ∀ f ∈ Go.SourceFile.parse source', ∀ declaration ∈ f.declarations, declaration.Clear c)
    (s : PackageScan) (path : Path) : s.scanFile ⟨path, source'⟩ = s.scanFile ⟨path, source⟩ := by
  rw [scanFile, scanFile]
  have hParse := Go.SourceFile.parse_commented h
  generalize Go.SourceFile.parse source = read, Go.SourceFile.parse source' = read' at *
  cases hParse with
  | none => rfl
  | @some f f' hItems =>
    have hClear : ∀ item ∈ f'.items, item.declaration.Clear c := fun item hItem =>
      hClear f' rfl _ (List.mem_map_of_mem hItem)
    dsimp only
    rw [recordPackage, recordPackage, Go.SourceFile.packageName_commented hItems, Go.SourceFile.packageDoc_commented hItems,
      Go.SourceFile.contextImport_commented hItems]
    split
    · rfl
    · exact recordItems_commented _ path hItems hClear _

/-- A function that takes a context. -/
def contextSource : Text := "package ops\n\nimport \"context\"\n\nfunc Build(ctx context.Context) {}\n".toList

/-- The same function with a comment in its parameter list. -/
def commentedSource : Text :=
  "package ops\n\nimport \"context\"\n\nfunc Build(ctx /* stops */context.Context) {}\n".toList

theorem insertedInside_contextSource : Go.InsertedInside "/* stops */".toList contextSource commentedSource := by
  refine ⟨[⟨[], .keyword .package⟩, ⟨[.blank [' ']], .word "ops".toList⟩, ⟨[.blank ['\n', '\n']], .keyword .import_⟩,
      ⟨[.blank [' ']], .string "\"context\"".toList⟩, ⟨[.blank ['\n', '\n']], .keyword .func⟩,
      ⟨[.blank [' ']], .word "Build".toList⟩, ⟨[], .symbol .parenOpen⟩, ⟨[], .word "ctx".toList⟩],
    [⟨[], .symbol .dot⟩, ⟨[], .word "Context".toList⟩, ⟨[], .symbol .parenClose⟩, ⟨[.blank [' ']], .symbol .braceOpen⟩,
      ⟨[], .symbol .braceClose⟩, ⟨[.blank ['\n']], .eof⟩],
    _, _, .word "context".toList, ?_, ?_, .between [.blank [' ']] [], ?_⟩
  · decide +kernel
  · decide +kernel
  · decide +kernel

def contextScan : PackageScan :=
  { new "ops".toList with
    packageName := some "ops".toList
    candidates := [.function "Build".toList "ops/a.go".toList [] ⟨true, false⟩] }

theorem scanFile_commentedSource :
    (new "ops".toList).scanFile ⟨"ops/a.go".toList, commentedSource⟩ = (contextScan, none) := by
  rw [scanFile_insertedInside insertedInside_contextSource (by decide +kernel)]
  decide +kernel

/-- A method whose receiver is a pointer. -/
def runSource : Text := "package ops\n\ntype Build struct{}\n\nfunc (b *Build) Run() {}\n".toList

/-- The same method with a comment behind the star. -/
def starSource : Text := "package ops\n\ntype Build struct{}\n\nfunc (b */* c */Build) Run() {}\n".toList

/-- Behind the star of a pointer the comment is read as the name of the type. -/
theorem exists_read_comment : ∃ c source source' : Text, Go.InsertedInside c source source' ∧
    (Go.SourceFile.parse source).isSome ∧ (Go.SourceFile.parse source').isSome ∧
    ((new "ops".toList).scanFile ⟨"ops/a.go".toList, source⟩).1.runMethods = [("Build".toList, ⟨false, false⟩)] ∧
    ((new "ops".toList).scanFile ⟨"ops/a.go".toList, source'⟩).1.runMethods = [("/* c */".toList, ⟨false, false⟩)] := by
  refine ⟨"/* c */".toList, runSource, starSource,
    ⟨[⟨[], .keyword .package⟩, ⟨[.blank [' ']], .word "ops".toList⟩, ⟨[.blank ['\n', '\n']], .keyword .type⟩,
        ⟨[.blank [' ']], .word "Build".toList⟩, ⟨[.blank [' ']], .keyword .struct⟩, ⟨[], .symbol .braceOpen⟩,
        ⟨[], .symbol .braceClose⟩, ⟨[.blank ['\n', '\n']], .keyword .func⟩, ⟨[.blank [' ']], .symbol .parenOpen⟩,
        ⟨[], .word ['b']⟩, ⟨[.blank [' ']], .symbol .star⟩],
      [⟨[], .symbol .parenClose⟩, ⟨[.blank [' ']], .word "Run".toList⟩, ⟨[], .symbol .parenOpen⟩,
        ⟨[], .symbol .parenClose⟩, ⟨[.blank [' ']], .symbol .braceOpen⟩, ⟨[], .symbol .braceClose⟩,
        ⟨[.blank ['\n']], .eof⟩],
      _, _, .word "Build".toList, ?_, ?_, .between [] [], ?_⟩, ?_⟩
  all_goals decide +kernel

end PackageScan

end GoCommands
