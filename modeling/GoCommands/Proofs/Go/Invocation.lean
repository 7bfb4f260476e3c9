import GoCommands.Go.Invocation

/-! # Signatures of commands

A signature is told by its parameters and its results one by one, however they are grouped. At most one of each is
accepted, and then its type inside all parentheses decides.
-/

namespace GoCommands.Go

namespace TypeExpr

/-- The comment that stands in the place of the type, inside all parentheses. -/
def standIn : TypeExpr → Option Text
  | parens (some note) _ => some note
  | parens none inner => inner.standIn
  | _ => none

/-- The type without the parentheses around it. -/
def bare : TypeExpr → TypeExpr
  | parens _ inner => inner.bare
  | type => type

theorem unwrapped_eq_some_iff {type inner : TypeExpr} :
    type.unwrapped = some inner ↔ type.standIn = none ∧ type.bare = inner := by
  induction type using TypeExpr.unwrapped.induct with
  | case1 note _ => simp [unwrapped, standIn]
  | case2 _ ih => exact ih
  | case3 type hNoted hPlain =>
    cases type with
    | parens note inner =>
      cases note with
      | none => exact absurd rfl (hPlain inner)
      | some note => exact absurd rfl (hNoted note inner)
    | _ => simp [unwrapped, standIn, bare]

theorem isNamed_iff {type : TypeExpr} {id : Text} :
    type.isNamed id ↔ type.standIn = none ∧ type.bare = .name id := by
  rw [← unwrapped_eq_some_iff, isNamed]
  split
  · rename_i n hInner
    simp [hInner]
  · rename_i hOther
    exact iff_of_false (by simp) (hOther id)

theorem isMember_iff {type : TypeExpr} {package id : Text} :
    type.isMember package id ↔ type.standIn = none ∧ ∃ source, type.bare = .qualified package id source := by
  simp only [← exists_and_left, ← unwrapped_eq_some_iff]
  rw [isMember]
  split
  · rename_i p n source hInner
    simp [hInner]
  · rename_i hOther
    refine iff_of_false (by simp) ?_
    rintro ⟨source, hInner⟩
    exact hOther package id source hInner

end TypeExpr

/-- The type is how a file with this import writes the context type. -/
inductive ContextImport.Names : ContextImport → TypeExpr → Prop
  | member (package source : Text) : Names (.named package) (.qualified package contextType source)
  | own : Names .dot (.name contextType)

namespace ContextImport

theorem names_named_iff {package : Text} {type : TypeExpr} :
    (named package).Names type ↔ ∃ source, type = .qualified package contextType source := by
  constructor
  · rintro ⟨⟩
    exact ⟨_, rfl⟩
  · rintro ⟨source, rfl⟩
    exact .member package source

theorem names_dot_iff {type : TypeExpr} : dot.Names type ↔ type = .name contextType := by
  constructor
  · rintro ⟨⟩
    rfl
  · rintro rfl
    exact .own

theorem accepts_iff {context : ContextImport} {type : TypeExpr} :
    context.accepts type ↔ type.standIn = none ∧ context.Names type.bare := by
  cases context with
  | named package => rw [accepts, TypeExpr.isMember_iff, names_named_iff]
  | dot => rw [accepts, TypeExpr.isNamed_iff, names_dot_iff]
  | notImported =>
    refine iff_of_false (by simp [accepts]) ?_
    rintro ⟨-, h⟩
    cases h

end ContextImport

/-- One parameter or one result. -/
structure Slot where
  variadic : Bool
  type : TypeExpr

namespace Slot

variable {slot : Slot} {context : ContextImport}

def type? (slot : Slot) : Option TypeExpr := if slot.variadic then none else some slot.type

structure IsContext (context : ContextImport) (slot : Slot) : Prop where
  single : slot.variadic = false
  named : context.Names slot.type.bare

structure IsError (slot : Slot) : Prop where
  single : slot.variadic = false
  named : slot.type.bare = .name "error".toList

theorem type?_any_iff {test : TypeExpr → Bool} : slot.type?.any test ↔ slot.variadic = false ∧ test slot.type := by
  rw [type?]
  cases slot.variadic <;> simp

theorem accepts_iff_isContext (hPlain : slot.type.standIn = none) :
    slot.type?.any context.accepts ↔ slot.IsContext context := by
  rw [type?_any_iff, ContextImport.accepts_iff, and_iff_right hPlain]
  exact ⟨fun ⟨hSingle, hNamed⟩ => ⟨hSingle, hNamed⟩, fun ⟨hSingle, hNamed⟩ => ⟨hSingle, hNamed⟩⟩

theorem isNamed_iff_isError (hPlain : slot.type.standIn = none) :
    slot.type?.any (TypeExpr.isNamed "error".toList) ↔ slot.IsError := by
  rw [type?_any_iff, TypeExpr.isNamed_iff, and_iff_right hPlain]
  exact ⟨fun ⟨hSingle, hNamed⟩ => ⟨hSingle, hNamed⟩, fun ⟨hSingle, hNamed⟩ => ⟨hSingle, hNamed⟩⟩

end Slot

/-- The parameters that a declaration stands for: one for each name, or one if it has no name. -/
def Parameter.slots (p : Parameter) : List Slot :=
  match p.names with
  | [] => [⟨p.variadic, p.type⟩]
  | names => names.map fun _ => ⟨p.variadic, p.type⟩

theorem parameterTypes_eq (ps : List Parameter) :
    parameterTypes ps = (ps.flatMap Parameter.slots).map Slot.type? := by
  rw [parameterTypes, List.map_flatMap]
  congr 1
  funext p
  rw [Parameter.slots]
  cases p.names with
  | nil => rfl
  | cons name names =>
    have hLength : 1 ≤ (name :: names).length := Nat.le_add_left 1 _
    rw [Nat.max_eq_left hLength, List.map_map]
    exact List.map_const'.symm

namespace Signature

variable (s : Signature)

def taken : List Slot := s.parameters.flatMap Parameter.slots

def given : List Slot :=
  match s.result with
  | none => []
  | some (.single type) => [⟨false, type⟩]
  | some (.list ps) => ps.flatMap Parameter.slots

/-- No comment stands in the place of a type. -/
def Uncommented : Prop := ∀ slot ∈ s.taken ++ s.given, slot.type.standIn = none

instance : Decidable s.Uncommented := List.decidableBAll _ _

theorem resultTypes_eq : resultTypes s.result = s.given.map Slot.type? := by
  rw [given]
  rcases s.result with _ | type | ps
  · rfl
  · rfl
  · exact parameterTypes_eq ps

end Signature

/-- There is nothing, or one slot, which has the property; the flag says which. -/
inductive AtMostOne (P : Slot → Prop) : List Slot → Bool → Prop
  | absent : AtMostOne P [] false
  | present {slot : Slot} : P slot → AtMostOne P [slot] true

/-- Whether there is a slot, which then has to be the only one and to pass the test. -/
def onlySlot (test : Slot → Bool) (failed many : SignatureProblem) : List Slot → Except SignatureProblem Bool
  | [] => .ok false
  | [slot] => if test slot then .ok true else .error failed
  | _ => .error many

section

variable {test : Slot → Bool} {failed many : SignatureProblem} {slots : List Slot} {P : Slot → Prop}
  (hTest : ∀ slot ∈ slots, test slot ↔ P slot)
include hTest

theorem onlySlot_eq_ok_iff {flag : Bool} : onlySlot test failed many slots = .ok flag ↔ AtMostOne P slots flag := by
  match slots with
  | [] =>
    constructor
    · rintro ⟨⟩
      exact .absent
    · rintro ⟨⟩
      rfl
  | [slot] =>
    rw [onlySlot]
    constructor
    · intro h
      split at h
      · rename_i hSlot
        cases h
        exact .present ((hTest slot (.head _)).mp hSlot)
      · cases h
    · intro h
      cases h with
      | present hSlot => rw [if_pos ((hTest slot (.head _)).mpr hSlot)]
  | _ :: _ :: _ =>
    constructor
    · intro h
      cases h
    · rintro ⟨⟩

theorem onlySlot_eq_error_iff {problem : SignatureProblem} : onlySlot test failed many slots = .error problem ↔
    (∃ slot, slots = [slot] ∧ ¬ P slot ∧ problem = failed) ∨ (2 ≤ slots.length ∧ problem = many) := by
  match slots with
  | [] => simp [onlySlot]
  | [slot] =>
    have hSlot := hTest slot (.head _)
    rw [onlySlot]
    by_cases h : test slot
    · simp [h, hSlot.mp h]
    · simp [h, mt hSlot.mpr h, eq_comm]
  | _ :: _ :: _ => simp [onlySlot, eq_comm]

theorem onlySlot_eq_error_iff_of_same {problem : SignatureProblem} :
    onlySlot test failed failed slots = .error problem ↔ problem = failed ∧ ¬ ∃ flag, AtMostOne P slots flag := by
  have hAccepted : ∀ flag, onlySlot test failed failed slots = .ok flag ↔ AtMostOne P slots flag :=
    fun _ => onlySlot_eq_ok_iff hTest
  simp only [← hAccepted]
  cases hOnly : onlySlot test failed failed slots with
  | ok flag => simp
  | error e =>
    have hFailed : e = failed := by
      rcases (onlySlot_eq_error_iff hTest).mp hOnly with ⟨_, -, -, hSame⟩ | ⟨-, hSame⟩
      · exact hSame
      · exact hSame
    simp [hFailed, eq_comm]

end

/-- Whether a function with parameters of these types is called with a context. -/
def ContextImport.use (context : ContextImport) : List (Option TypeExpr) → Except SignatureProblem Bool
  | [] => .ok false
  | [some type] => if context.accepts type then .ok true else .error .notContext
  | [none] => .error .notContext
  | _ => .error .tooManyParameters

/-- Whether a function with results of these types returns an error. -/
def errorReturn : List (Option TypeExpr) → Except SignatureProblem Bool
  | [] => .ok false
  | [some type] => if type.isNamed "error".toList then .ok true else .error .badResults
  | _ => .error .badResults

theorem Signature.invocation_eq (s : Signature) (context : ContextImport) :
    s.invocation context = (context.use (parameterTypes s.parameters)).bind fun usesContext =>
      (errorReturn (resultTypes s.result)).map fun returnsError => ⟨usesContext, returnsError⟩ := by
  have hResult : ∀ usesContext : Bool,
      (do
        let returnsError ← match resultTypes s.result with
          | [] => pure false
          | [some type] => if type.isNamed "error".toList then pure true else throw .badResults
          | _ => throw .badResults
        return ⟨usesContext, returnsError⟩ : Except SignatureProblem Invocation) =
        (errorReturn (resultTypes s.result)).map fun returnsError => ⟨usesContext, returnsError⟩ := by
    intro usesContext
    rcases resultTypes s.result with _ | ⟨_ | type, _ | _⟩
    case cons.some.nil =>
      dsimp only
      rw [errorReturn]
      split <;> rfl
    all_goals rfl
  rw [Signature.invocation]
  rcases parameterTypes s.parameters with _ | ⟨_ | type, _ | _⟩
  case nil => exact hResult false
  case cons.some.nil =>
    dsimp only
    rw [ContextImport.use]
    split
    · exact hResult true
    · rfl
  all_goals rfl

theorem ContextImport.use_map_type? (context : ContextImport) (slots : List Slot) : context.use (slots.map Slot.type?) =
    onlySlot (fun slot => slot.type?.any context.accepts) .notContext .tooManyParameters slots := by
  match slots with
  | [] => rfl
  | [slot] =>
    rw [onlySlot, List.map_singleton]
    cases slot.type? <;> rfl
  | _ :: _ :: _ => simp [use, onlySlot]

theorem errorReturn_map_type? (slots : List Slot) : errorReturn (slots.map Slot.type?) =
    onlySlot (fun slot => slot.type?.any (TypeExpr.isNamed "error".toList)) .badResults .badResults slots := by
  match slots with
  | [] => rfl
  | [slot] =>
    rw [onlySlot, List.map_singleton]
    cases slot.type? <;> rfl
  | _ :: _ :: _ => simp [errorReturn, onlySlot]

section

variable {α β γ ε : Type} {first : Except ε α} {second : Except ε β} {f : α → β → γ}

theorem bind_map_eq_error_iff {e : ε} : (first.bind fun a => second.map (f a)) = .error e ↔
    first = .error e ∨ (∃ a, first = .ok a) ∧ second = .error e := by
  cases first <;> cases second <;> simp [Except.bind, Except.map]

end

theorem bind_map_eq_ok_iff {uses returns : Except SignatureProblem Bool} {i : Invocation} :
    (uses.bind fun usesContext => returns.map fun returnsError => ⟨usesContext, returnsError⟩) = .ok i ↔
      uses = .ok i.usesContext ∧ returns = .ok i.returnsError := by
  cases i
  cases uses <;> cases returns <;> simp [Except.bind, Except.map]

namespace Signature

theorem invocation_eq_onlySlot (s : Signature) (context : ContextImport) : s.invocation context =
    (onlySlot (fun slot => slot.type?.any context.accepts) .notContext .tooManyParameters s.taken).bind
      fun usesContext =>
        (onlySlot (fun slot => slot.type?.any (TypeExpr.isNamed "error".toList)) .badResults .badResults s.given).map
          fun returnsError => ⟨usesContext, returnsError⟩ := by
  rw [invocation_eq, parameterTypes_eq, ← taken, resultTypes_eq, ContextImport.use_map_type?, errorReturn_map_type?]

/-- What is to be said of a signature: it is accepted with its parameter and its result, or it has a problem. -/
inductive Verdict (context : ContextImport) (s : Signature) : Except SignatureProblem Invocation → Prop
  | accepted {i : Invocation} : AtMostOne (Slot.IsContext context) s.taken i.usesContext →
      AtMostOne Slot.IsError s.given i.returnsError → Verdict context s (.ok i)
  | tooManyParameters : 2 ≤ s.taken.length → Verdict context s (.error .tooManyParameters)
  | notContext {slot : Slot} : s.taken = [slot] → ¬ slot.IsContext context → Verdict context s (.error .notContext)
  | badResults {flag : Bool} : AtMostOne (Slot.IsContext context) s.taken flag →
      (¬ ∃ flag, AtMostOne Slot.IsError s.given flag) → Verdict context s (.error .badResults)

theorem invocation_eq_iff {s : Signature} (hPlain : s.Uncommented) (context : ContextImport)
    {outcome : Except SignatureProblem Invocation} : s.invocation context = outcome ↔ s.Verdict context outcome := by
  have hTaken : ∀ slot ∈ s.taken, slot.type?.any context.accepts ↔ slot.IsContext context := fun slot hSlot =>
    Slot.accepts_iff_isContext (hPlain slot (List.mem_append_left _ hSlot))
  have hGiven : ∀ slot ∈ s.given, slot.type?.any (TypeExpr.isNamed "error".toList) ↔ slot.IsError := fun slot hSlot =>
    Slot.isNamed_iff_isError (hPlain slot (List.mem_append_right _ hSlot))
  rw [invocation_eq_onlySlot]
  constructor
  · intro h
    cases outcome with
    | ok i =>
      obtain ⟨hUses, hReturns⟩ := bind_map_eq_ok_iff.mp h
      exact .accepted ((onlySlot_eq_ok_iff hTaken).mp hUses) ((onlySlot_eq_ok_iff hGiven).mp hReturns)
    | error problem =>
      -- The results have one problem only, so the others come from the parameters.
      rcases bind_map_eq_error_iff.mp h with hUses | ⟨⟨flag, hUses⟩, hReturns⟩
      · rcases (onlySlot_eq_error_iff hTaken).mp hUses with ⟨slot, hSlot, hOther, rfl⟩ | ⟨hMany, rfl⟩
        · exact .notContext hSlot hOther
        · exact .tooManyParameters hMany
      · obtain ⟨rfl, hOther⟩ := (onlySlot_eq_error_iff_of_same hGiven).mp hReturns
        exact .badResults ((onlySlot_eq_ok_iff hTaken).mp hUses) hOther
  · intro h
    cases h with
    | accepted hUses hReturns =>
      exact bind_map_eq_ok_iff.mpr ⟨(onlySlot_eq_ok_iff hTaken).mpr hUses, (onlySlot_eq_ok_iff hGiven).mpr hReturns⟩
    | tooManyParameters hMany =>
      exact bind_map_eq_error_iff.mpr (.inl ((onlySlot_eq_error_iff hTaken).mpr (.inr ⟨hMany, rfl⟩)))
    | notContext hSlot hOther =>
      exact bind_map_eq_error_iff.mpr (.inl ((onlySlot_eq_error_iff hTaken).mpr (.inl ⟨_, hSlot, hOther, rfl⟩)))
    | badResults hUses hOther =>
      exact bind_map_eq_error_iff.mpr (.inr ⟨⟨_, (onlySlot_eq_ok_iff hTaken).mpr hUses⟩,
        (onlySlot_eq_error_iff_of_same hGiven).mpr ⟨rfl, hOther⟩⟩)

/-- A signature is accepted exactly if it takes nothing or a context and gives nothing or an error. Otherwise too many
parameters are reported first, then a parameter that is no context, then the results. -/
theorem invocation_exact (s : Signature) (hPlain : s.Uncommented) (context : ContextImport) :
    (∀ i, s.invocation context = .ok i ↔
      AtMostOne (Slot.IsContext context) s.taken i.usesContext ∧ AtMostOne Slot.IsError s.given i.returnsError) ∧
    (s.invocation context = .error .tooManyParameters ↔ 2 ≤ s.taken.length) ∧
    (s.invocation context = .error .notContext ↔ ∃ slot, s.taken = [slot] ∧ ¬ slot.IsContext context) ∧
    (s.invocation context = .error .badResults ↔
      (∃ flag, AtMostOne (Slot.IsContext context) s.taken flag) ∧
        ¬ ∃ flag, AtMostOne Slot.IsError s.given flag) := by
  simp only [invocation_eq_iff hPlain]
  refine ⟨fun i => ⟨fun h => ?_, ?_⟩, ⟨fun h => ?_, .tooManyParameters⟩, ⟨fun h => ?_, ?_⟩, ⟨fun h => ?_, ?_⟩⟩
  · cases h with
    | accepted hUses hReturns => exact ⟨hUses, hReturns⟩
  · rintro ⟨hUses, hReturns⟩
    exact .accepted hUses hReturns
  · cases h with
    | tooManyParameters hMany => exact hMany
  · cases h with
    | notContext hSlot hOther => exact ⟨_, hSlot, hOther⟩
  · rintro ⟨_, hSlot, hOther⟩
    exact .notContext hSlot hOther
  · cases h with
    | badResults hUses hOther => exact ⟨⟨_, hUses⟩, hOther⟩
  · rintro ⟨⟨_, hUses⟩, hOther⟩
    exact .badResults hUses hOther

/-- The signature of `(ctx (c.Context)) (err ((error)))`. -/
def wrappedTypes : Signature :=
  ⟨[⟨["ctx".toList], false, .parens none (.qualified "c".toList contextType "c.Context".toList)⟩],
    some (.list [⟨["err".toList], false, .parens none (.parens none (.name "error".toList))⟩])⟩

theorem invocation_wrappedTypes : wrappedTypes.Uncommented ∧
    wrappedTypes.invocation (.named "c".toList) = .ok ⟨true, true⟩ ∧
    wrappedTypes.invocation .dot = .error .notContext := by
  have hPlain : wrappedTypes.Uncommented := by decide
  obtain ⟨hAccepted, -⟩ := invocation_exact wrappedTypes hPlain (.named "c".toList)
  obtain ⟨-, -, hNotContext, -⟩ := invocation_exact wrappedTypes hPlain .dot
  refine ⟨hPlain, (hAccepted ⟨true, true⟩).mpr ⟨.present ⟨rfl, .member _ _⟩, .present ⟨rfl, rfl⟩⟩, ?_⟩
  refine hNotContext.mpr ⟨_, rfl, ?_⟩
  rintro ⟨-, hNamed⟩
  cases hNamed

end Signature

end GoCommands.Go
