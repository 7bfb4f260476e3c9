import GoCommands.Proofs.Package.CommandNames
import GoCommands.Proofs.Package.Scanning
import GoCommands.Proofs.Text.Lookup

/-! # The order of the files of a package

A scan appends what each file declares, so another order of the files permutes what it recorded. Where nothing
is declared twice the assembly cannot tell these orders apart, except by the documentation of the package, which
the first file gives.
-/

namespace GoCommands

namespace Go.Item

def functionNames (item : Item) : List Text := item.function?.toList.map FunctionDecl.name

def typeNames (item : Item) : List Text := item.typeSpecs.map TypeSpec.name

def methodNames (receiver : Text) (item : Item) : List Text :=
  match item.declaration with
  | .method m => if receiverName m.receiver = some receiver then [m.name] else []
  | _ => []

end Go.Item

/-- Names that may be declared any number of times, for they refer to none of the declarations. -/
def isShared (name : Text) : Bool := name == "_".toList || name == "init".toList

/-- The names that the items of some files declare, once for each declaration. -/
def declared (names : Go.Item → List Text) (units : List ScannedFile) : List Text :=
  units.flatMap fun unit => unit.2.items.flatMap names

/-- No two declarations in the files are of one function, of one type, or of one method of such a type. -/
structure DeclaredOnce (units : List ScannedFile) : Prop where
  functions : ((declared Go.Item.functionNames units).filter fun name => !isShared name).Nodup
  types : ((declared Go.Item.typeNames units).filter fun name => !isShared name).Nodup
  methods : ∀ receiver ∈ declared Go.Item.typeNames units,
    ((declared (Go.Item.methodNames receiver) units).filter fun name => !isShared name).Nodup

instance (units : List ScannedFile) : Decidable (DeclaredOnce units) :=
  decidable_of_iff
    (((declared Go.Item.functionNames units).filter fun name => !isShared name).Nodup ∧
      ((declared Go.Item.typeNames units).filter fun name => !isShared name).Nodup ∧
      ∀ receiver ∈ declared Go.Item.typeNames units,
        ((declared (Go.Item.methodNames receiver) units).filter fun name => !isShared name).Nodup)
    ⟨fun ⟨functions, types, methods⟩ => ⟨functions, types, methods⟩, fun h => ⟨h.functions, h.types, h.methods⟩⟩

def PackageModel.withoutDoc (m : PackageModel) : PackageModel := { m with doc := [] }

section Counting

variable {α β : Type}

theorem count_le_one {names : List Text} (h : (names.filter fun name => !isShared name).Nodup) {name : Text}
    (hName : isShared name = false) : names.count name ≤ 1 := by
  rw [← List.count_filter (p := fun name => !isShared name) (by rw [hName]; rfl)]
  exact List.nodup_iff_count_le_one.mp h name

theorem countP_flatMap_le {γ : Type} {p : β → Bool} {q : γ → Bool} {f : α → List β} {g : α → List γ}
    (h : ∀ a, (f a).countP p ≤ (g a).countP q) (l : List α) :
    (l.flatMap f).countP p ≤ (l.flatMap g).countP q := by
  induction l with
  | nil => exact le_rfl
  | cons a l ih =>
    rw [List.flatMap_cons, List.flatMap_cons, List.countP_append, List.countP_append]
    exact Nat.add_le_add (h a) ih

theorem countP_le_count_declared {p : β → Bool} {name : Text} {names : Go.Item → List Text}
    {found : ScannedFile → Go.Item → List β}
    (h : ∀ unit item, (found unit item).countP p ≤ (names item).count name) (units : List ScannedFile) :
    (units.flatMap fun unit => unit.2.items.flatMap (found unit)).countP p ≤ (declared names units).count name :=
  countP_flatMap_le (fun unit => countP_flatMap_le (h unit) unit.2.items) units

theorem countP_le_one {p : β → Bool} {name : Text} {names : Go.Item → List Text}
    {found : ScannedFile → Go.Item → List β} {units : List ScannedFile}
    (hOnce : ((declared names units).filter fun name => !isShared name).Nodup)
    (hName : isShared name = false) (h : ∀ unit item, (found unit item).countP p ≤ (names item).count name) :
    (units.flatMap fun unit => unit.2.items.flatMap (found unit)).countP p ≤ 1 :=
  (countP_le_count_declared h units).trans (count_le_one hOnce hName)

end Counting

section Items

variable (context : Go.ContextImport) (path : Path) (name : Text) (item : Go.Item)

def Candidate.key : Candidate → CommandKind × Text
  | .function name _ _ _ => (.function, name)
  | .type name _ _ => (.type, name)

theorem isShared_of_isExported {name : Text} (h : CommandName.isExported name) : isShared name = false := by
  rw [isShared, Bool.or_eq_false_iff, beq_eq_false_iff_ne, beq_eq_false_iff_ne]
  constructor <;> (rintro rfl; exact absurd h (by decide))

theorem not_isShared_of_mem_candidates {c : Candidate} (h : c ∈ item.candidates context path) :
    isShared c.key.2 = false := by
  rcases List.mem_append.mp h with h | h
  · obtain ⟨spec, hSpec, rfl⟩ := List.mem_map.mp h
    have hCandidate := (List.mem_filter.mp hSpec).2
    rw [Go.TypeSpec.isCandidate] at hCandidate
    split at hCandidate
    · exact isShared_of_isExported (Bool.and_eq_true_iff.mp hCandidate).2
    · cases hCandidate
  · obtain ⟨⟨f, invocation⟩, hFunction, rfl⟩ := List.mem_map.mp h
    rw [Option.mem_toList, Go.Item.command?_eq_some_iff] at hFunction
    exact isShared_of_isExported hFunction.2.1

theorem countP_function_candidates :
    (item.candidates context path).countP (fun c => c.key == (.function, name)) ≤ item.functionNames.count name := by
  have hTypes : (item.candidateTypes.map fun spec => Candidate.type spec.name path !spec.links.isEmpty).countP
      (fun c => c.key == (.function, name)) = 0 := by
    rw [List.countP_eq_zero]
    rintro _ hc
    obtain ⟨spec, -, rfl⟩ := List.mem_map.mp hc
    simp [Candidate.key]
  rw [Go.Item.candidates, List.countP_append, hTypes, Nat.zero_add, Go.Item.functionNames]
  cases hCommand : item.command? context with
  | none => simp
  | some found =>
    rw [((Go.Item.command?_eq_some_iff context item found.1 found.2).mp hCommand).1]
    simp [Candidate.key, List.countP_cons, List.count_cons]

theorem countP_type_candidates :
    (item.candidates context path).countP (fun c => c.key == (.type, name)) ≤ item.typeNames.count name := by
  have hFunctions : ((item.command? context).toList.map fun found =>
      Candidate.function found.1.name path (item.doc.getD []) found.2).countP
        (fun c => c.key == (.type, name)) = 0 := by
    rw [List.countP_eq_zero]
    rintro _ hc
    obtain ⟨found, -, rfl⟩ := List.mem_map.mp hc
    simp [Candidate.key]
  rw [Go.Item.candidates, List.countP_append, hFunctions, Nat.add_zero, Go.Item.typeNames, List.count,
    List.countP_map, List.countP_map, Go.Item.candidateTypes]
  refine le_trans (List.Sublist.countP_le List.filter_sublist) (List.countP_mono_left fun spec _ h => ?_)
  simpa [Candidate.key] using h

def Go.Item.Declares (item : Go.Item) (receiver method : Text) : Prop :=
  ∃ m, item.declaration = .method m ∧ Go.receiverName m.receiver = some receiver ∧ m.name = method

theorem declares_of_runMethod? {receiver : Text} {invocation : Go.Invocation}
    (h : item.runMethod? context = some (receiver, invocation)) :
    item.Declares receiver PackageScan.runMethodName := by
  unfold Go.Item.runMethod? at h
  split at h
  · rename_i m hMethod
    split at h
    · rename_i hName
      obtain ⟨_, hReceiver, hEq⟩ := Option.map_eq_some_iff.mp h
      cases hEq
      exact ⟨m, hMethod, hReceiver, beq_iff_eq.mp hName⟩
    · cases h
  · cases h

theorem declares_of_description? {receiver text : Text} (h : item.description? = some (receiver, text)) :
    item.Declares receiver PackageScan.descriptionMethodName := by
  unfold Go.Item.description? at h
  split at h
  · rename_i m hMethod
    split at h
    · cases h
    · split at h
      · rename_i hName
        obtain ⟨_, hReceiver, hText⟩ := Option.bind_eq_some_iff.mp h
        obtain ⟨_, -, hEq⟩ := Option.map_eq_some_iff.mp hText
        cases hEq
        exact ⟨m, hMethod, hReceiver, beq_iff_eq.mp hName⟩
      · cases h
  · cases h

theorem countP_le_methodNames {β : Type} {entry : Option (Text × β)} {method : Text}
    (h : ∀ receiver value, entry = some (receiver, value) → item.Declares receiver method) :
    entry.toList.countP (fun e => e.1 == name) ≤ (item.methodNames name).count method := by
  cases entry with
  | none => exact Nat.zero_le _
  | some e =>
    obtain ⟨m, hMethod, hReceiver, rfl⟩ := h e.1 e.2 rfl
    rw [Go.Item.methodNames, hMethod]
    simp only [hReceiver, Option.some.injEq]
    by_cases hName : e.1 = name <;> simp [hName]

theorem length_entryPoint :
    (if item.isEntryPoint then [path] else []).length ≤ item.functionNames.count PackageScan.entryPointName := by
  rw [Go.Item.isEntryPoint, Go.Item.functionNames]
  cases item.function? with
  | none => exact Nat.zero_le _
  | some f =>
    rw [Option.any_some]
    by_cases hName : f.name = PackageScan.entryPointName <;> simp [hName]

end Items

namespace CommandInfo

variable {c d e : CommandInfo}

theorem insert_cons_of_lt (h : c.name < e.name) (es : List CommandInfo) : c.insert (e :: es) = c :: e :: es := by
  rw [insert, if_pos h]

theorem insert_cons_of_eq (h : c.name = e.name) (es : List CommandInfo) : c.insert (e :: es) = c :: es := by
  rw [insert, h, if_neg (lt_irrefl _), if_pos (beq_self_eq_true _)]

theorem insert_cons_of_gt (h : e.name < c.name) (es : List CommandInfo) :
    c.insert (e :: es) = e :: c.insert es := by
  rw [insert, if_neg h.asymm, if_neg (by simpa using h.ne')]

theorem insert_comm_of_lt (h : c.name < d.name) (es : List CommandInfo) :
    c.insert (d.insert es) = d.insert (c.insert es) := by
  induction es with
  | nil => rw [insert, insert, insert_cons_of_lt h, insert_cons_of_gt h, insert]
  | cons e es ih =>
    rcases lt_trichotomy d.name e.name with hd | hd | hd
    · rw [insert_cons_of_lt hd, insert_cons_of_lt h, insert_cons_of_lt (h.trans hd), insert_cons_of_gt h,
        insert_cons_of_lt hd]
    · rw [insert_cons_of_eq hd, insert_cons_of_lt h, insert_cons_of_lt (h.trans_eq hd), insert_cons_of_gt h,
        insert_cons_of_eq hd]
    · rw [insert_cons_of_gt hd]
      rcases lt_trichotomy c.name e.name with hc | hc | hc
      · rw [insert_cons_of_lt hc, insert_cons_of_lt hc, insert_cons_of_gt h, insert_cons_of_gt hd]
      · rw [insert_cons_of_eq hc, insert_cons_of_eq hc, insert_cons_of_gt h]
      · rw [insert_cons_of_gt hc, insert_cons_of_gt hc, insert_cons_of_gt hd, ih]

theorem insert_comm (h : c.name ≠ d.name) (es : List CommandInfo) :
    c.insert (d.insert es) = d.insert (c.insert es) := by
  rcases lt_or_gt_of_ne h with hLess | hGreater
  · exact insert_comm_of_lt hLess es
  · exact (insert_comm_of_lt hGreater es).symm

end CommandInfo

namespace PackageScan

theorem promote_comm (s : PackageScan) {c d : Candidate} (h : c.key ≠ d.key) (p : Promotion) :
    s.promote (s.promote p c) d = s.promote (s.promote p d) c := by
  cases c with
  | type name file hasSubcommands =>
    cases d with
    | type name' file' hasSubcommands' =>
      have hNames : name ≠ name' := by simpa [Candidate.key] using h
      -- A type takes its own description only, so neither changes what the other one finds.
      simp only [promote_type]
      by_cases hKeeps : s.keepsType name hasSubcommands <;> by_cases hKeeps' : s.keepsType name' hasSubcommands'
      · simp only [if_pos hKeeps, if_pos hKeeps', lookup_filter_ne _ hNames, lookup_filter_ne _ hNames.symm,
          List.filter_filter, Bool.and_comm]
        rw [CommandInfo.insert_comm hNames.symm]
      · simp only [if_pos hKeeps, if_neg hKeeps']
      · simp only [if_neg hKeeps, if_pos hKeeps']
      · simp only [if_neg hKeeps, if_neg hKeeps']
    | function name' file' description invocation =>
      -- Types and functions go to two lists, and the other pair below is the same.
      simp only [promote_type, promote_function]
      split <;> split <;> rfl
  | function name file description invocation =>
    cases d with
    | type name' file' hasSubcommands =>
      simp only [promote_type, promote_function]
      split <;> split <;> rfl
    | function name' file' description' invocation' =>
      have hNames : name ≠ name' := by simpa [Candidate.key] using h
      simp only [promote_function]
      split <;> split <;> first | rfl | rw [CommandInfo.insert_comm hNames.symm]

/-- Two promotions found the same commands and have the same descriptions left for some types. -/
structure Promotion.Alike (known : Text → Prop) (p p' : Promotion) : Prop where
  types : p'.types = p.types
  functions : p'.functions = p.functions
  descriptions : ∀ name, known name → p'.descriptions.lookup name = p.descriptions.lookup name

/-- The assembly cannot tell these scans apart: what they hold in different orders is looked up by keys that are
all different. -/
structure Alike (s s' : PackageScan) : Prop where
  dir : s'.dir = s.dir
  packageName : s'.packageName = s.packageName
  candidates : s.candidates.Perm s'.candidates
  keys : ∀ c ∈ s.candidates, ∀ d ∈ s.candidates, c.key = d.key → c = d
  links : s.links.Perm s'.links
  runMethods : ∀ c ∈ s.candidates, ∀ name, c.key = (.type, name) → s'.runMethod name = s.runMethod name
  descriptions : ∀ c ∈ s.candidates, ∀ name, c.key = (.type, name) →
    s'.descriptions.lookup name = s.descriptions.lookup name
  entryPoints : s'.entryPoints = s.entryPoints

namespace Alike

variable {s s' : PackageScan} (h : s.Alike s')
include h

theorem isLinkedType (name : Text) : s'.isLinkedType name = s.isLinkedType name := (h.links.any_eq).symm

theorem isLinkedName (name : Text) : s'.isLinkedName name = s.isLinkedName name := (h.links.any_eq).symm

theorem keepsType {c : Candidate} (hc : c ∈ s.candidates) {name : Text} (hKey : c.key = (.type, name))
    (hasSubcommands : Bool) : s'.keepsType name hasSubcommands = s.keepsType name hasSubcommands := by
  rw [PackageScan.keepsType, PackageScan.keepsType, h.isLinkedType, h.runMethods c hc name hKey]

theorem promote {known : Text → Prop} {p p' : Promotion} (hp : p.Alike known p') {c : Candidate}
    (hc : c ∈ s.candidates) (hKnown : ∀ name, c.key = (.type, name) → known name) :
    (s.promote p c).Alike known (s'.promote p' c) := by
  cases c with
  | type name file hasSubcommands =>
    rw [promote_type, promote_type, h.keepsType hc rfl, h.runMethods _ hc name rfl]
    split
    · refine ⟨?_, hp.functions, fun other hOther => ?_⟩
      · simp only [hp.types, hp.descriptions name (hKnown name rfl)]
      · rcases eq_or_ne other name with rfl | hNe
        · simp only [lookup_filter_self]
        · simp only [lookup_filter_ne _ hNe, hp.descriptions other hOther]
    · exact hp
  | function name file description invocation =>
    rw [promote_function, promote_function, h.isLinkedName]
    split
    · exact hp
    · exact ⟨hp.types, congrArg (CommandInfo.insert _) hp.functions, hp.descriptions⟩

theorem foldl_promote {known : Text → Prop} {p p' : Promotion} (hp : p.Alike known p') {cs : List Candidate}
    (hcs : cs ⊆ s.candidates) (hKnown : ∀ c ∈ cs, ∀ name, c.key = (.type, name) → known name) :
    (cs.foldl s.promote p).Alike known (cs.foldl s'.promote p') := by
  induction cs generalizing p p' with
  | nil => exact hp
  | cons c cs ih =>
    obtain ⟨hc, hcs⟩ := List.cons_subset.mp hcs
    obtain ⟨hKnownFirst, hKnown⟩ := List.forall_mem_cons.mp hKnown
    exact ih (h.promote hp hc hKnownFirst) hcs hKnown

theorem promoted : s'.promoted.types = s.promoted.types ∧ s'.promoted.functions = s.promoted.functions := by
  let known (name : Text) : Prop := ∃ c ∈ s.candidates, c.key = (.type, name)
  have hStart : Promotion.Alike known ⟨[], [], s.descriptions⟩ ⟨[], [], s'.descriptions⟩ :=
    { types := rfl
      functions := rfl
      descriptions := by
        rintro name ⟨c, hc, hKey⟩
        exact h.descriptions c hc name hKey }
  have hAlike := h.foldl_promote hStart (List.Subset.refl _) fun c hc name hKey => ⟨c, hc, hKey⟩
  -- Candidates of one key are one candidate, and those of different keys do not see each other.
  have hOrder : s'.promoted = s.candidates.foldl s'.promote ⟨[], [], s'.descriptions⟩ := by
    apply (h.candidates.foldl_eq' _ _).symm
    intro c hc d hd p
    by_cases hKey : c.key = d.key
    · rw [h.keys c hc d hd hKey]
    · exact s'.promote_comm hKey p
  rw [hOrder]
  exact ⟨hAlike.types, hAlike.functions⟩

theorem finish_eq : s'.finish.map PackageModel.withoutDoc = s.finish.map PackageModel.withoutDoc := by
  obtain ⟨hTypes, hFunctions⟩ := h.promoted
  rw [finish, finish, h.entryPoints]
  split
  · rfl
  · simp only [hTypes, hFunctions, h.dir, h.packageName]
    split <;> rfl

end Alike

def ofUnits (dir : Path) (units : List ScannedFile) : PackageScan := units.foldl recorded (new dir)

section

variable (dir : Path) (units : List ScannedFile)

theorem candidates_ofUnits : (ofUnits dir units).candidates =
    units.flatMap fun unit => unit.2.items.flatMap (Go.Item.candidates unit.2.contextImport unit.1) :=
  candidates_foldl_recorded units (new dir)

theorem perm_ofUnits {β : Type} {field : PackageScan → List β} {found : ScannedFile → Go.Item → List β}
    (hNew : field (new dir) = [])
    (hStep : ∀ s unit, (field (s.recorded unit)).Perm (unit.2.items.flatMap (found unit) ++ field s)) :
    (field (ofUnits dir units)).Perm (units.flatMap fun unit => unit.2.items.flatMap (found unit)) := by
  have hPerm := field_foldl_perm hStep units (new dir)
  rwa [hNew, List.append_nil] at hPerm

theorem runMethods_ofUnits : (ofUnits dir units).runMethods.Perm
    (units.flatMap fun unit => unit.2.items.flatMap fun item => (item.runMethod? unit.2.contextImport).toList) := by
  refine perm_ofUnits dir units rfl fun s unit => ?_
  rw [runMethods_recorded]
  exact (List.reverse_perm _).append_right _

theorem descriptions_ofUnits : (ofUnits dir units).descriptions.Perm
    (units.flatMap fun unit => unit.2.items.flatMap fun item => item.description?.toList) := by
  refine perm_ofUnits dir units rfl fun s unit => ?_
  rw [descriptions_recorded]
  exact (List.reverse_perm _).append_right _

theorem entryPoints_ofUnits : (ofUnits dir units).entryPoints =
    units.flatMap fun unit => unit.2.items.flatMap fun item => if item.isEntryPoint then [unit.1] else [] :=
  field_foldl_append entryPoints_recorded units (new dir)

theorem packageName_ofUnits :
    (ofUnits dir units).packageName = units.findSome? fun unit => unit.2.packageName :=
  field_foldl_or packageName_recorded units (new dir)

theorem dir_ofUnits : (ofUnits dir units).dir = dir := field_foldl_eq dir_recorded units (new dir)

end

theorem mem_typeNames_of_key {dir : Path} {units : List ScannedFile} {c : Candidate}
    (hc : c ∈ (ofUnits dir units).candidates) {name : Text} (hKey : c.key = (.type, name)) :
    name ∈ declared Go.Item.typeNames units := by
  have hCount : 0 < (ofUnits dir units).candidates.countP fun e => e.key == (.type, name) :=
    List.countP_pos_iff.mpr ⟨c, hc, beq_iff_eq.mpr hKey⟩
  rw [candidates_ofUnits] at hCount
  apply List.count_pos_iff.mp
  exact hCount.trans_le (countP_le_count_declared (fun _ item => countP_type_candidates _ _ name item) units)

section

variable {units : List ScannedFile} (h : DeclaredOnce units) (dir : Path)
include h

theorem eq_of_key_eq {c d : Candidate} (hc : c ∈ (ofUnits dir units).candidates)
    (hd : d ∈ (ofUnits dir units).candidates) (hKey : c.key = d.key) : c = d := by
  have hOwn : isShared c.key.2 = false := by
    rw [candidates_ofUnits, List.mem_flatMap] at hc
    obtain ⟨unit, -, hc⟩ := hc
    obtain ⟨item, -, hc⟩ := List.mem_flatMap.mp hc
    exact not_isShared_of_mem_candidates _ _ _ hc
  have hOnce : (ofUnits dir units).candidates.countP (fun e => e.key == c.key) ≤ 1 := by
    rw [candidates_ofUnits]
    generalize c.key = key at hOwn
    obtain ⟨kind, name⟩ := key
    cases kind with
    | function => exact countP_le_one h.functions hOwn fun _ item => countP_function_candidates _ _ name item
    | type => exact countP_le_one h.types hOwn fun _ item => countP_type_candidates _ _ name item
  exact eq_of_countP_le_one hOnce hc hd (beq_self_eq_true _) (beq_iff_eq.mpr hKey.symm)

theorem countP_runMethods {name : Text} (hType : name ∈ declared Go.Item.typeNames units) :
    (ofUnits dir units).runMethods.countP (fun entry => entry.1 == name) ≤ 1 := by
  have hOwn : isShared runMethodName = false := by decide
  rw [(runMethods_ofUnits dir units).countP_eq]
  apply countP_le_one (h.methods name hType) hOwn
  intro unit item
  exact countP_le_methodNames name item fun _ _ hRun => declares_of_runMethod? _ item hRun

theorem countP_descriptions {name : Text} (hType : name ∈ declared Go.Item.typeNames units) :
    (ofUnits dir units).descriptions.countP (fun entry => entry.1 == name) ≤ 1 := by
  have hOwn : isShared descriptionMethodName = false := by decide
  rw [(descriptions_ofUnits dir units).countP_eq]
  apply countP_le_one (h.methods name hType) hOwn
  intro unit item
  exact countP_le_methodNames name item fun _ _ hText => declares_of_description? item hText

theorem length_entryPoints : (ofUnits dir units).entryPoints.length ≤ 1 := by
  have hOwn : isShared entryPointName = false := by decide
  rw [entryPoints_ofUnits, ← List.countP_true]
  apply countP_le_one h.functions hOwn
  intro unit item
  rw [List.countP_true]
  exact length_entryPoint unit.1 item

theorem alike_of_perm {units' : List ScannedFile} (hPerm : units.Perm units') {package : Text}
    (hPackage : ∀ unit ∈ units, unit.2.packageName = some package) :
    (ofUnits dir units).Alike (ofUnits dir units') where
  dir := by rw [dir_ofUnits, dir_ofUnits]
  packageName := by
    -- The first file gives the name, but every file has the same one.
    have hName : ∀ {us : List ScannedFile}, (∀ unit ∈ us, unit.2.packageName = some package) →
        us.findSome? (fun unit => unit.2.packageName) = if us.length = 0 then none else some package := by
      intro us hus
      cases us with
      | nil => rfl
      | cons unit rest => rw [List.findSome?_cons, hus unit List.mem_cons_self, List.length_cons, if_neg (by omega)]
    rw [packageName_ofUnits, packageName_ofUnits, hName hPackage, hPerm.length_eq, hName]
    exact fun unit hUnit => hPackage unit (hPerm.mem_iff.mpr hUnit)
  candidates := by
    rw [candidates_ofUnits, candidates_ofUnits]
    exact hPerm.flatMap_right _
  keys c hc d hd hKey := eq_of_key_eq h dir hc hd hKey
  links := by
    rw [ofUnits, ofUnits, links_foldl_recorded, links_foldl_recorded]
    exact (hPerm.flatMap_right _).append_left _
  runMethods c hc name hKey := by
    apply lookup_eq_of_perm _ (countP_runMethods h dir (mem_typeNames_of_key hc hKey))
    exact (runMethods_ofUnits dir units).trans ((hPerm.flatMap_right _).trans (runMethods_ofUnits dir units').symm)
  descriptions c hc name hKey := by
    apply lookup_eq_of_perm _ (countP_descriptions h dir (mem_typeNames_of_key hc hKey))
    exact (descriptions_ofUnits dir units).trans
      ((hPerm.flatMap_right _).trans (descriptions_ofUnits dir units').symm)
  entryPoints := by
    have hEntries : (ofUnits dir units).entryPoints.Perm (ofUnits dir units').entryPoints := by
      rw [entryPoints_ofUnits, entryPoints_ofUnits]
      exact hPerm.flatMap_right _
    have hLength := length_entryPoints h dir
    -- The assembly reads the list of entry points as it is, so here it must be in one order only.
    match hFiles : (ofUnits dir units).entryPoints with
    | [] =>
      rw [hFiles] at hEntries
      exact hEntries.symm.eq_nil
    | [path] =>
      rw [hFiles] at hEntries
      exact (List.singleton_perm.mp hEntries).symm
    | _ :: _ :: _ =>
      rw [hFiles, List.length_cons, List.length_cons] at hLength
      omega

end

/-- Files that declare nothing twice can be scanned in any order: the assembly then gives the same error, or the
same model but for the documentation of the package. -/
theorem finish_eq_of_perm {dir : Path} {files files' : List TaggedFile} {s : PackageScan} (hPerm : files.Perm files')
    (hOnce : DeclaredOnce (TaggedFile.parsed files)) (hScan : (new dir).scanFiles files = .ok s) :
    ∃ s', (new dir).scanFiles files' = .ok s' ∧
      s'.finish.map PackageModel.withoutDoc = s.finish.map PackageModel.withoutDoc := by
  obtain ⟨⟨package, hNew, hFits⟩, rfl⟩ := (scanFiles_ok_iff files _ _).mp hScan
  have hUnits : (TaggedFile.parsed files).Perm (TaggedFile.parsed files') := hPerm.filterMap _
  have hPackage : ∀ unit ∈ TaggedFile.parsed files, unit.2.packageName = some package := by
    intro unit hUnit
    obtain ⟨file, hFile, hParse, -⟩ := (TaggedFile.mem_parsed files unit).mp hUnit
    obtain ⟨parsed, hParsed, hName, -⟩ := hFits file hFile
    rwa [Option.some.inj (hParse.symm.trans hParsed)]
  refine ⟨ofUnits dir (TaggedFile.parsed files'), ?_, ?_⟩
  · apply (scanFiles_ok_iff files' _ _).mpr
    exact ⟨⟨package, hNew, fun file hFile => hFits file (hPerm.mem_iff.mpr hFile)⟩, rfl⟩
  · exact (alike_of_perm hOnce dir hUnits hPackage).finish_eq

/-- A command in one file, its subcommand and two further functions in the other. -/
def rootFiles : List TaggedFile :=
  [⟨"ops/a.go".toList, ("// Package ops runs tasks.\npackage ops\n\n" ++
      "type Root struct \x7b\n\tLint LintTask \x60gantry:\"subcommand\"\x60\n\x7d\n\nfunc init() \x7b\x7d\n").toList⟩,
    ⟨"ops/b.go".toList, ("package ops\n\ntype LintTask struct\x7b\x7d\n\nfunc (LintTask) Run() \x7b\x7d\n\n" ++
      "func init() \x7b\x7d\n\nfunc Build() \x7b\x7d\n").toList⟩]

theorem scanned_rootFiles : DeclaredOnce (TaggedFile.parsed rootFiles) ∧
    (new "ops".toList).scanFiles rootFiles = .ok (ofUnits "ops".toList (TaggedFile.parsed rootFiles)) := by
  decide +kernel

theorem finish_eq_reversed_rootFiles : ∃ s', (new "ops".toList).scanFiles rootFiles.reverse = .ok s' ∧
    s'.finish.map PackageModel.withoutDoc =
      (ofUnits "ops".toList (TaggedFile.parsed rootFiles)).finish.map PackageModel.withoutDoc :=
  finish_eq_of_perm (List.reverse_perm rootFiles).symm scanned_rootFiles.1 scanned_rootFiles.2

end PackageScan

end GoCommands
