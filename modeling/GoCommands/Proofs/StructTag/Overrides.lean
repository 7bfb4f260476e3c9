import GoCommands.StructTag.Annotation
import GoCommands.Proofs.Fold
import GoCommands.Proofs.Text.Lines

/-! # Annotations in several items

Each item of an annotation adds to what the items before it have made. One item is enough to make the field a
subcommand, and a name that is given later takes the place of an earlier one.
-/

namespace GoCommands.StructTag.Annotation

def subcommandKey : Text := "subcommand".toList

def nameKey : Text := "name".toList

/-- The item is this key with this value, both up to white space at their ends. -/
def Gives (item key value : Text) : Prop :=
  ∃ front back, item = front ++ '=' :: back ∧ Text.trim front = key ∧ Text.trim back = value

/-- The item makes the field a subcommand. -/
def Marks (item : Text) : Prop := Text.trim item = subcommandKey ∨ ∃ value, Gives item subcommandKey value

/-- The item gives the field this name. -/
def Names (item name : Text) : Prop := (Gives item nameKey name ∨ Gives item subcommandKey name) ∧ name ≠ []

theorem isWhite_equals : Text.isWhite '=' = false := by decide

theorem equals_not_mem_subcommandKey : '=' ∉ subcommandKey := by decide

theorem equals_not_mem_nameKey : '=' ∉ nameKey := by decide

section

variable {item : Text} (hItem : '=' ∉ item)
include hItem

theorem not_gives_of_not_mem (key value : Text) : ¬ Gives item key value := by
  rintro ⟨front, back, rfl, -⟩
  exact hItem (List.mem_append_right front List.mem_cons_self)

theorem marks_iff_of_not_mem : Marks item ↔ Text.trim item = subcommandKey := by
  refine or_iff_left ?_
  rintro ⟨value, hGives⟩
  exact not_gives_of_not_mem hItem _ _ hGives

theorem not_names_of_not_mem (name : Text) : ¬ Names item name := by
  rintro ⟨hGives | hGives, -⟩
  · exact not_gives_of_not_mem hItem _ _ hGives
  · exact not_gives_of_not_mem hItem _ _ hGives

theorem addItem_of_not_mem (a : Annotation) :
    a.addItem item = if Text.trim item = subcommandKey then { a with subcommand := true } else a := by
  simp only [addItem, Text.splitOnce?_trim isWhite_equals, Text.splitOnce?_eq_none_iff.mpr hItem, Option.map_none,
    beq_iff_eq]
  rfl

end

section

variable {item front back : Text} (hSplit : Text.splitOnce? '=' item = some (front, back))
include hSplit

/-- A key without `=` ends at the first `=` of the item. -/
theorem gives_iff_of_split {key : Text} (hKey : '=' ∉ key) (value : Text) :
    Gives item key value ↔ Text.trim front = key ∧ Text.trim back = value := by
  constructor
  · rintro ⟨front', back', hItem, rfl, rfl⟩
    have hFirst : '=' ∉ front' := mt (Text.mem_trim isWhite_equals).mpr hKey
    rw [Text.splitOnce?_eq_some_iff.mpr ⟨hItem, hFirst⟩] at hSplit
    obtain ⟨rfl, rfl⟩ := Prod.mk.inj (Option.some.inj hSplit)
    exact ⟨rfl, rfl⟩
  · rintro ⟨hFront, hBack⟩
    exact ⟨front, back, (Text.splitOnce?_eq_some_iff.mp hSplit).1, hFront, hBack⟩

theorem marks_iff_of_split : Marks item ↔ Text.trim front = subcommandKey := by
  have hKeyed : Text.trim item ≠ subcommandKey := by
    intro hTrim
    apply equals_not_mem_subcommandKey
    rw [← hTrim, Text.mem_trim isWhite_equals, (Text.splitOnce?_eq_some_iff.mp hSplit).1]
    exact List.mem_append_right front List.mem_cons_self
  simp only [Marks, gives_iff_of_split hSplit equals_not_mem_subcommandKey, hKeyed, false_or, exists_and_left,
    exists_eq', and_true]

theorem names_iff_of_split (name : Text) : Names item name ↔
    (Text.trim front = nameKey ∨ Text.trim front = subcommandKey) ∧ Text.trim back = name ∧ name ≠ [] := by
  rw [Names, gives_iff_of_split hSplit equals_not_mem_nameKey, gives_iff_of_split hSplit equals_not_mem_subcommandKey,
    ← or_and_right, and_assoc]

theorem addItem_of_split (a : Annotation) : a.addItem item =
    let name := if Text.trim back = [] then a.name else some (Text.trim back)
    if Text.trim front = subcommandKey then ⟨true, name⟩
    else if Text.trim front = nameKey then { a with name := name }
    else a := by
  simp only [addItem, Text.splitOnce?_trim isWhite_equals, hSplit, Option.map_some, Prod.map, Text.trim_trimStart,
    Text.trim_trimEnd, beq_iff_eq, List.isEmpty_iff]
  rfl

theorem name_addItem_of_split (a : Annotation) : (a.addItem item).name =
    if (Text.trim front = nameKey ∨ Text.trim front = subcommandKey) ∧ Text.trim back ≠ [] then some (Text.trim back)
    else a.name := by
  rw [addItem_of_split hSplit]
  by_cases hValue : Text.trim back = []
  · simp only [hValue, if_true, ne_eq, not_true_eq_false, and_false, if_false]
    split
    · rfl
    · split <;> rfl
  · simp only [hValue, if_false, ne_eq, not_false_eq_true, and_true]
    split
    · rename_i hKey
      rw [if_pos (.inr hKey)]
    · rename_i hOther
      simp only [or_iff_left hOther]
      split <;> rfl

end

/-- An item sets the mark or leaves it. -/
theorem subcommand_addItem_iff (a : Annotation) (item : Text) :
    (a.addItem item).subcommand ↔ a.subcommand ∨ Marks item := by
  cases hSplit : Text.splitOnce? '=' item with
  | none =>
    have hItem := Text.splitOnce?_eq_none_iff.mp hSplit
    rw [addItem_of_not_mem hItem, marks_iff_of_not_mem hItem]
    split <;> simp [*]
  | some parts =>
    rw [addItem_of_split hSplit, marks_iff_of_split hSplit]
    by_cases hKey : Text.trim parts.1 = subcommandKey
    · simp [hKey]
    · simp only [hKey, if_false, or_false]
      split <;> rfl

/-- An item puts its name in the place of the earlier one. -/
theorem name_addItem (a : Annotation) (item : Text) :
    (a.addItem item).name = (none.addItem item).name.or a.name := by
  cases hSplit : Text.splitOnce? '=' item with
  | none =>
    have hItem := Text.splitOnce?_eq_none_iff.mp hSplit
    rw [addItem_of_not_mem hItem, addItem_of_not_mem hItem]
    split <;> rfl
  | some parts =>
    rw [name_addItem_of_split hSplit, name_addItem_of_split hSplit]
    split <;> rfl

theorem name_addItem_none_iff {item name : Text} : (none.addItem item).name = some name ↔ Names item name := by
  cases hSplit : Text.splitOnce? '=' item with
  | none =>
    have hItem := Text.splitOnce?_eq_none_iff.mp hSplit
    rw [addItem_of_not_mem hItem, iff_false_right (not_names_of_not_mem hItem name)]
    split <;> exact Option.some_ne_none name ∘ Eq.symm
  | some parts =>
    rw [name_addItem_of_split hSplit, names_iff_of_split hSplit]
    constructor
    · intro hName
      split at hName
      · rename_i hGiven
        obtain rfl := Option.some.inj hName
        exact ⟨hGiven.1, rfl, hGiven.2⟩
      · cases hName
    · rintro ⟨hKey, rfl, hValue⟩
      exact if_pos ⟨hKey, hValue⟩

theorem parse_append (a b : Text) : parse (a ++ ',' :: b) = (Text.splitAt ',' b).foldl addItem (parse a) := by
  rw [parse, Text.splitAt_append, List.foldl_append]
  rfl

theorem subcommand_parse_iff (t : Text) : (parse t).subcommand ↔ ∃ item ∈ Text.splitAt ',' t, Marks item := by
  refine (foldl_iff (P := fun a : Annotation => a.subcommand) subcommand_addItem_iff _ none).trans ?_
  exact or_iff_right Bool.false_ne_true

theorem name_parse (t : Text) :
    (parse t).name = (Text.splitAt ',' t).reverse.findSome? fun item => (none.addItem item).name := by
  rw [parse, field_foldl_last name_addItem]
  exact Option.or_none

theorem name_parse_append (a b : Text) : (parse (a ++ ',' :: b)).name = (parse b).name.or (parse a).name := by
  rw [parse_append, field_foldl_last name_addItem, ← name_parse]

theorem subcommand_parse_append (a b : Text) :
    (parse (a ++ ',' :: b)).subcommand ↔ (parse a).subcommand ∨ (parse b).subcommand := by
  rw [parse_append, subcommand_parse_iff b]
  exact foldl_iff (P := fun a : Annotation => a.subcommand) subcommand_addItem_iff _ _

theorem name_parse_iff {t name : Text} : (parse t).name = some name ↔
    ∃ front item behind, Text.splitAt ',' t = front ++ item :: behind ∧ Names item name ∧
      ∀ other ∈ behind, ∀ n, ¬ Names other n := by
  -- The last item that gives a name is the first one from the end, so front and back of the list change places.
  rw [name_parse, List.findSome?_eq_some_iff]
  constructor
  · rintro ⟨behind, item, front, hItems, hItem, hBehind⟩
    refine ⟨front.reverse, item, behind.reverse, ?_, name_addItem_none_iff.mp hItem, ?_⟩
    · rw [List.reverse_eq_iff.mp hItems]
      simp
    · intro other hOther n hNames
      have hNone := hBehind other (List.mem_reverse.mp hOther)
      rw [name_addItem_none_iff.mpr hNames] at hNone
      cases hNone
  · rintro ⟨front, item, behind, hItems, hItem, hBehind⟩
    refine ⟨behind.reverse, item, front.reverse, ?_, name_addItem_none_iff.mpr hItem, ?_⟩
    · rw [hItems]
      simp
    · intro other hOther
      rw [Option.eq_none_iff_forall_ne_some]
      intro n hName
      exact hBehind other (List.mem_reverse.mp hOther) n (name_addItem_none_iff.mp hName)

/-- Two lists with a comma between them make the field a subcommand if one of the two does. The name is that of the
second list, or that of the first where the second gives none. So in any list one item is enough to make the field a
subcommand, and the name is that of the last item that gives one. -/
theorem parse_overrides (a b : Text) :
    ((parse (a ++ ',' :: b)).subcommand ↔ (parse a).subcommand ∨ (parse b).subcommand) ∧
    (parse (a ++ ',' :: b)).name = (parse b).name.or (parse a).name ∧
    ∀ items : List Text, items ≠ [] → (∀ item ∈ items, ',' ∉ item) →
      ((parse (Text.joinWith [','] items)).subcommand ↔ ∃ item ∈ items, Marks item) ∧
      ∀ name, (parse (Text.joinWith [','] items)).name = some name ↔
        ∃ front item behind, items = front ++ item :: behind ∧ Names item name ∧
          ∀ other ∈ behind, ∀ n, ¬ Names other n := by
  refine ⟨subcommand_parse_append a b, name_parse_append a b, fun items hItems hCommas => ?_⟩
  have hSplit := Text.splitAt_joinWith hItems hCommas
  constructor
  · rw [subcommand_parse_iff, hSplit]
  · intro name
    rw [name_parse_iff, hSplit]

/-- Two names, the later one with `=` in it, and behind them an empty name and other items. -/
def renamedItems : List Text :=
  ["name = first".toList, " subcommand\t= a=b ".toList, "name=".toList, [], "flag=c".toList]

theorem parse_overrides_renamedItems : renamedItems ≠ [] ∧ (∀ item ∈ renamedItems, ',' ∉ item) ∧
    parse (Text.joinWith [','] renamedItems) = ⟨true, some "a=b".toList⟩ ∧ (∃ item ∈ renamedItems, Marks item) ∧
    ∃ front item behind, renamedItems = front ++ item :: behind ∧ Names item "a=b".toList ∧
      ∀ other ∈ behind, ∀ n, ¬ Names other n := by
  have hItems : renamedItems ≠ [] := by decide
  have hCommas : ∀ item ∈ renamedItems, ',' ∉ item := by decide
  have hParsed : parse (Text.joinWith [','] renamedItems) = ⟨true, some "a=b".toList⟩ := by decide
  obtain ⟨-, -, hList⟩ := parse_overrides [] []
  obtain ⟨hMarked, hNamed⟩ := hList renamedItems hItems hCommas
  refine ⟨hItems, hCommas, hParsed, hMarked.mp ?_, (hNamed _).mp ?_⟩
  · rw [hParsed]
  · rw [hParsed]

end GoCommands.StructTag.Annotation
