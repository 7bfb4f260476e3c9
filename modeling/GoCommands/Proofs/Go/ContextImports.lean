import GoCommands.Proofs.Go.Declared
import GoCommands.Proofs.Go.Invocation
import Mathlib.Data.List.Induction

/-! # Imports of the package `context`

A file can import the package under several names. Only the last import of it is remembered, so a context is accepted
under the other names only if they are the same.
-/

namespace GoCommands.Go

/-- The type is the context type of a package that is imported under the name. -/
inductive ImportName.Gives : ImportName → TypeExpr → Prop
  | plain (source : Text) : Gives .none (.qualified contextPackage contextType source)
  | named (id source : Text) : Gives (.named id) (.qualified id contextType source)
  | dot : Gives .dot (.name contextType)

theorem ImportName.gives_iff {name : ImportName} {type : TypeExpr} :
    name.Gives type ↔ name.context.Names type := by
  constructor
  · rintro (source | ⟨id, source⟩ | _)
    · exact .member contextPackage source
    · exact .member id source
    · exact .own
  · intro h
    cases name with
    | none =>
      obtain ⟨source, rfl⟩ := ContextImport.names_named_iff.mp h
      exact .plain source
    | dot =>
      obtain rfl := ContextImport.names_dot_iff.mp h
      exact .dot
    | blank => cases h
    | named id =>
      obtain ⟨source, rfl⟩ := ContextImport.names_named_iff.mp h
      exact .named id source

/-- A type is the context type under one import at most. -/
theorem ContextImport.Names.unique {context context' : ContextImport} {type : TypeExpr} (h : context.Names type)
    (h' : context'.Names type) : context = context' := by
  cases h with
  | member package source =>
    cases h'
    rfl
  | own =>
    cases h'
    rfl

/-- The only parameter has the context type under the name, and there is no result. -/
structure Signature.TakesOnly (name : ImportName) (s : Signature) : Prop where
  taken : ∃ slot, s.taken = [slot] ∧ slot.variadic = false ∧ slot.type.standIn = none ∧ name.Gives slot.type.bare
  given : s.given = []

namespace Signature

variable {s : Signature} {name : ImportName} {context : ContextImport}

theorem takesOnly_iff : s.TakesOnly name ↔ s.invocation name.context = .ok ⟨true, false⟩ := by
  rw [invocation_eq_onlySlot, bind_map_eq_ok_iff, onlySlot_eq_ok_iff fun _ _ => Iff.rfl,
    onlySlot_eq_ok_iff fun _ _ => Iff.rfl]
  constructor
  · rintro ⟨⟨slot, hTaken, hSingle, hPlain, hGives⟩, hGiven⟩
    rw [hTaken, hGiven]
    refine ⟨.present (Slot.type?_any_iff.mpr ⟨hSingle, ?_⟩), .absent⟩
    exact ContextImport.accepts_iff.mpr ⟨hPlain, ImportName.gives_iff.mp hGives⟩
  · rintro ⟨hTaken, hGiven⟩
    generalize hSlots : s.taken = taken at hTaken
    generalize hResults : s.given = given at hGiven
    cases hGiven
    cases hTaken with
    | present hSlot =>
      obtain ⟨hSingle, hAccepted⟩ := Slot.type?_any_iff.mp hSlot
      obtain ⟨hPlain, hNames⟩ := ContextImport.accepts_iff.mp hAccepted
      exact ⟨⟨_, hSlots, hSingle, hPlain, ImportName.gives_iff.mpr hNames⟩, hResults⟩

instance : Decidable (s.TakesOnly name) := decidable_of_iff _ takesOnly_iff.symm

theorem TakesOnly.invocation_eq (h : s.TakesOnly name) :
    s.invocation context = if context = name.context then .ok ⟨true, false⟩ else .error .notContext := by
  split
  · rename_i hSame
    rw [hSame]
    exact takesOnly_iff.mp h
  · rename_i hOther
    obtain ⟨slot, hTaken, -, -, hGives⟩ := h.taken
    have hRefused : ¬ slot.type?.any context.accepts := by
      intro hAccepted
      obtain ⟨-, hType⟩ := Slot.type?_any_iff.mp hAccepted
      exact hOther ((ContextImport.accepts_iff.mp hType).2.unique (ImportName.gives_iff.mp hGives))
    rw [invocation_eq_onlySlot, hTaken, onlySlot, if_neg hRefused]
    rfl

theorem exists_takesOnly (hName : name ≠ .blank) : ∃ s : Signature, s.TakesOnly name := by
  have hType : ∃ type : TypeExpr, type.standIn = none ∧ name.Gives type.bare := by
    cases name with
    | none => exact ⟨.qualified contextPackage contextType [], rfl, .plain []⟩
    | dot => exact ⟨.name contextType, rfl, .dot⟩
    | blank => exact absurd rfl hName
    | named id => exact ⟨.qualified id contextType [], rfl, .named id []⟩
  obtain ⟨type, hPlain, hGives⟩ := hType
  exact ⟨⟨[⟨[], false, type⟩], none⟩, ⟨⟨_, rfl, rfl, hPlain, hGives⟩, rfl⟩⟩

end Signature

namespace SourceFile

variable (f : SourceFile)

def contextImports : List ImportSpec := f.imports.filter fun spec => stringValue spec.path == some contextPackage

theorem contextImport_eq :
    f.contextImport = (f.contextImports.getLast?.map fun spec => spec.name.context).getD .notImported := by
  have hLast : ∀ specs : List ImportSpec, specs.foldl (fun _ spec => spec.name.context) ContextImport.notImported =
      (specs.getLast?.map fun spec => spec.name.context).getD .notImported := by
    intro specs
    -- The fold forgets what it has found, so only the last import is looked at.
    induction specs using List.reverseRecOn with
    | nil => rfl
    | append_singleton front last _ =>
      rw [List.foldl_append, List.getLast?_concat]
      rfl
  rw [contextImport, ← hLast, contextImports, List.foldl_filter]

variable {f}

theorem contextImport_of_last {last : ImportSpec} (hLast : last ∈ f.contextImports.getLast?) :
    f.contextImport = last.name.context := by
  rw [contextImport_eq, Option.mem_def.mp hLast]
  rfl

/-- A context is accepted under a name of the package exactly if the last import names it so too, and is refused under
any other. So all names are accepted exactly if each import but a blank one names the package as the last one does. -/
theorem everyName_accepted_iff (f : SourceFile) :
    (∀ spec ∈ f.contextImports, ∀ last ∈ f.contextImports.getLast?, ∀ s : Signature, s.TakesOnly spec.name →
      s.invocation f.contextImport =
        if last.name.context = spec.name.context then .ok ⟨true, false⟩ else .error .notContext) ∧
    ((∀ spec ∈ f.contextImports, ∀ s : Signature, s.TakesOnly spec.name →
      s.invocation f.contextImport = .ok ⟨true, false⟩) ↔
    ∀ spec ∈ f.contextImports, spec.name ≠ .blank → ∀ last ∈ f.contextImports.getLast?,
      last.name.context = spec.name.context) := by
  have hEach : ∀ last ∈ f.contextImports.getLast?, ∀ {name : ImportName} {s : Signature}, s.TakesOnly name →
      s.invocation f.contextImport =
        if last.name.context = name.context then .ok ⟨true, false⟩ else .error .notContext := by
    intro last hLast name s hOnly
    rw [contextImport_of_last hLast, hOnly.invocation_eq]
  refine ⟨fun spec _ last hLast s hOnly => hEach last hLast hOnly, ?_, ?_⟩
  · intro h spec hSpec hName last hLast
    obtain ⟨s, hOnly⟩ := Signature.exists_takesOnly hName
    have hAccepted := h spec hSpec s hOnly
    rw [hEach last hLast hOnly] at hAccepted
    split at hAccepted
    · assumption
    · cases hAccepted
  · intro h spec hSpec s hOnly
    have hName : spec.name ≠ .blank := by
      intro hBlank
      obtain ⟨slot, -, -, -, hGives⟩ := hOnly.taken
      rw [hBlank] at hGives
      cases hGives
    have hLast := List.getLast?_eq_some_getLast (List.ne_nil_of_mem hSpec)
    rw [hEach _ hLast hOnly, if_pos (h spec hSpec hName _ hLast)]

/-- The file imports the package under its own name and has a function that takes a context by it, which is refused. -/
def RefusesOwnName (f : SourceFile) : Prop :=
  ∃ spec ∈ f.contextImports, spec.name = .none ∧ ∃ decl ∈ f.functions, decl.signature.TakesOnly spec.name ∧
    decl.signature.invocation f.contextImport = .error .notContext

instance : DecidablePred RefusesOwnName := fun f =>
  inferInstanceAs (Decidable (∃ spec ∈ f.contextImports, spec.name = .none ∧ ∃ decl ∈ f.functions,
    decl.signature.TakesOnly spec.name ∧ decl.signature.invocation f.contextImport = .error .notContext))

/-- A second import gives the package another name. -/
def renamedSource : Text :=
  "package ops\n\nimport \"context\"\nimport ctx \"context\"\n\nfunc Build(c context.Context) {}\n".toList

/-- A blank import follows. -/
def blankedSource : Text :=
  "package ops\n\nimport \"context\"\nimport _ \"context\"\n\nfunc Build(c context.Context) {}\n".toList

theorem exists_refused : (∃ f ∈ SourceFile.parse renamedSource, f.RefusesOwnName) ∧
    ∃ f ∈ SourceFile.parse blankedSource, f.RefusesOwnName := by
  decide +kernel

end SourceFile

end GoCommands.Go
