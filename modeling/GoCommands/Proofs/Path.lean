import GoCommands.Path
import GoCommands.Proofs.Text.Lines

/-! # Names in directories

A name behind a directory is one more step of its location. So the normalized path of the two has this
directory and this file name.
-/

namespace GoCommands.Path

/-- A piece of a path that is a step of a location: a name or `..`. -/
structure IsStep (n : Text) : Prop where
  nonempty : n ≠ []
  noSlash : '/' ∉ n
  notHere : n ≠ ['.']

/-- A piece of a path that is a name. -/
structure IsName (n : Text) : Prop extends IsStep n where
  notUp : n ≠ ['.', '.']

theorem IsName.componentOf {n : Text} (h : IsName n) : componentOf n = some (.name n) := by
  simp [Path.componentOf, h.nonempty, h.notHere, h.notUp]

theorem isName_of_componentOf {piece n : Text} (hSlash : '/' ∉ piece)
    (h : componentOf piece = some (.name n)) : IsName n := by
  rw [componentOf] at h
  split at h
  · cases h
  · rename_i hKept
    split at h
    · cases h
    · rename_i hUp
      obtain rfl : piece = n := by simpa using h
      obtain ⟨hNonempty, hHere⟩ : piece ≠ [] ∧ piece ≠ ['.'] := by simpa using hKept
      exact ⟨⟨hNonempty, hSlash, hHere⟩, by simpa using hUp⟩

theorem components_append {dir : Path} (hDir : dir ≠ []) (t : Text) :
    components (dir ++ '/' :: t) = dir.components ++ (Text.splitAt '/' t).filterMap componentOf := by
  obtain ⟨c, cs, rfl⟩ := List.exists_cons_of_ne_nil hDir
  obtain ⟨piece, pieces, hPieces⟩ := List.exists_cons_of_ne_nil (Text.splitAt_ne_nil '/' (c :: cs))
  rw [components, components, Text.splitAt_append, hPieces, List.filterMap_append, ← List.append_assoc]
  rfl

namespace IsName

variable {n : Text} (h : IsName n)
include h

theorem filterMap_componentOf : (Text.splitAt '/' n).filterMap Path.componentOf = [.name n] := by
  rw [Text.splitAt_of_not_mem h.noSlash, List.filterMap_cons, h.componentOf]
  rfl

theorem isAbsolute_eq : isAbsolute n = false := by
  rw [isAbsolute, beq_eq_false_iff_ne]
  exact fun hHead => h.noSlash (List.mem_of_mem_head? hHead)

theorem components_eq : components n = [.name n] := by
  rw [components, h.filterMap_componentOf, Text.splitAt_of_not_mem h.noSlash, h.isAbsolute_eq]
  simp [h.notHere]

theorem components_slash (front : Path) :
    components (front ++ '/' :: n) = components (front ++ ['/']) ++ [.name n] := by
  cases front with
  | nil =>
    have hAbsolute : components ('/' :: n) = .root :: (Text.splitAt '/' n).filterMap Path.componentOf := rfl
    rw [List.nil_append, hAbsolute, h.filterMap_componentOf]
    rfl
  | cons c cs =>
    rw [components_append (List.cons_ne_nil c cs), components_append (List.cons_ne_nil c cs),
      h.filterMap_componentOf]
    simp [Text.splitAt, Path.componentOf]

end IsName

/-- A name is the last component of a joined path. -/
theorem components_join (dir : Path) {n : Text} (h : IsName n) :
    (join dir n).components = dir.components ++ [.name n] := by
  rw [join, h.isAbsolute_eq, Bool.false_or]
  split
  · rename_i hEmpty
    rw [List.isEmpty_iff.mp hEmpty, h.components_eq]
    rfl
  · rename_i hDir
    split
    · rename_i hSlash
      obtain ⟨front, rfl⟩ := List.getLast?_eq_some_iff.mp (beq_iff_eq.mp hSlash)
      rw [List.append_assoc, List.singleton_append, h.components_slash]
    · rw [components_append (mt List.isEmpty_iff.mpr hDir), h.filterMap_componentOf]

namespace Location

/-- The steps are pieces of a path. -/
def Proper (l : Location) : Prop := ∀ n ∈ l.names, IsStep n

/-- The steps are names; `..` is at most the first step, since a second `..` takes it back. -/
inductive Resolved : Location → Prop
  | top (absolute : Bool) : Resolved ⟨absolute, []⟩
  | above (absolute : Bool) : Resolved ⟨absolute, [['.', '.']]⟩
  | name {l : Location} {n : Text} : Resolved l → IsName n → Resolved (l.step (.name n))

theorem isStep_up : IsStep ['.', '.'] := ⟨by decide, by decide, by decide⟩

theorem step_name_up (l : Location) (n : Text) : (l.step (.name n)).step .up = l := by
  obtain ⟨absolute, _ | ⟨m, rest⟩⟩ := l
  · rfl
  · rw [step, step]
    exact congrArg _ List.dropLast_concat

namespace Resolved

variable {l : Location} (h : l.Resolved)
include h

theorem proper : l.Proper := by
  induction h with
  | top => exact fun n hn => nomatch hn
  | above =>
    intro n hn
    rw [List.mem_singleton.mp hn]
    exact isStep_up
  | name _ hName ih =>
    intro n hn
    rcases List.mem_append.mp hn with hn | hn
    · exact ih n hn
    · rw [List.mem_singleton.mp hn]
      exact hName.toIsStep

theorem step {c : Component} (hName : ∀ n, c = .name n → IsName n) : (l.step c).Resolved := by
  cases c with
  | root => exact .top true
  | here => exact h
  | up =>
    cases h with
    | top absolute => exact .above absolute
    | above absolute => exact .top absolute
    | name hBefore _ => rwa [step_name_up]
  | name n => exact .name h (hName n rfl)

end Resolved

end Location

theorem isName_of_mem_components {p : Path} {n : Text} (h : .name n ∈ p.components) : IsName n := by
  rw [components, List.mem_append] at h
  rcases h with hStart | hPiece
  · split at hStart
    · simp at hStart
    · split at hStart <;> simp at hStart
  · obtain ⟨piece, hMem, hPiece⟩ := List.mem_filterMap.mp hPiece
    exact isName_of_componentOf (Text.not_mem_of_mem_splitAt hMem) hPiece

theorem isName_of_fileName {p : Path} {n : Text} (h : p.fileName = some n) : IsName n := by
  rw [fileName] at h
  split at h
  · rename_i hLast
    obtain rfl := Option.some.inj h
    exact isName_of_mem_components (List.mem_of_getLast? hLast)
  · cases h

theorem resolved_foldl_step {cs : List Component} (hNames : ∀ n, .name n ∈ cs → IsName n) {l : Location}
    (h : l.Resolved) : (cs.foldl Location.step l).Resolved := by
  induction cs generalizing l with
  | nil => exact h
  | cons c cs ih =>
    refine ih (fun n hn => hNames n (.tail _ hn)) (h.step fun n hn => hNames n ?_)
    rw [hn]
    exact .head _

theorem resolved_location (p : Path) : p.location.Resolved :=
  resolved_foldl_step (fun _ hn => isName_of_mem_components hn) (.top false)

theorem proper_location (p : Path) : p.location.Proper := (resolved_location p).proper

theorem location_join (dir : Path) {n : Text} (h : IsName n) :
    (join dir n).location = dir.location.step (.name n) := by
  rw [location, components_join dir h, List.foldl_append]
  rfl

theorem trimmed_reverse {n : Text} (h : IsStep n) (behind : Text) :
    trimmed (n.reverse ++ behind) = n.reverse ++ behind := by
  obtain ⟨c, cs, hReverse⟩ := List.exists_cons_of_ne_nil (mt List.reverse_eq_nil_iff.mp h.nonempty)
  have hSlash : ∀ d ∈ c :: cs, d ≠ '/' := by
    rintro d hd rfl
    rw [← hReverse] at hd
    exact h.noSlash (List.mem_reverse.mp hd)
  rw [hReverse, List.cons_append, trimmed.eq_def]
  split
  · rename_i hEq
    obtain ⟨rfl, -⟩ := List.cons.inj hEq
    exact absurd rfl (hSlash _ (.head _))
  · rename_i hEq
    obtain ⟨rfl, -⟩ := List.cons.inj hEq
    exact absurd rfl (hSlash _ (.head _))
  · rename_i hEq
    obtain ⟨rfl, hRest⟩ := List.cons.inj hEq
    cases cs with
    | nil =>
      have hHere : n = ['.'] := List.reverse_eq_iff.mp hReverse
      exact absurd hHere h.notHere
    | cons d ds =>
      obtain ⟨rfl, -⟩ := List.cons.inj hRest
      exact absurd rfl (hSlash _ (.tail _ (.head _)))
  · rfl

/-- The text before a step is nothing or ends with a slash. -/
theorem parent_append {n front : Text} (h : IsStep n) (hFront : front = [] ∨ front.getLast? = some '/') :
    parent (front ++ n) = some (trimmed front.reverse).reverse := by
  have hSlash : ∀ d ∈ n.reverse, (d != '/') = true := by
    intro d hd
    rw [bne_iff_ne]
    rintro rfl
    exact h.noSlash (List.mem_reverse.mp hd)
  have hDrop : (n.reverse ++ front.reverse).dropWhile (· != '/') = front.reverse := by
    rw [List.dropWhile_append_of_pos hSlash]
    rcases hFront with rfl | hLast
    · rfl
    · obtain ⟨body, rfl⟩ := List.getLast?_eq_some_iff.mp hLast
      rw [List.reverse_append]
      rfl
  rw [parent, List.reverse_append, trimmed_reverse h]
  split
  · rename_i hEmpty
    exact absurd (List.reverse_eq_nil_iff.mp (List.append_eq_nil_iff.mp hEmpty).1) h.nonempty
  · rename_i hRoot
    obtain ⟨c, cs, hReverse⟩ := List.exists_cons_of_ne_nil (mt List.reverse_eq_nil_iff.mp h.nonempty)
    rw [hReverse] at hRoot hSlash
    obtain ⟨rfl, -⟩ := List.cons.inj hRoot
    exact absurd (hSlash _ (.head _)) (by decide)
  · rw [hDrop]

namespace Location

/-- The text before a further step. -/
def front (l : Location) : Text :=
  if l.names.isEmpty then (if l.absolute then ['/'] else []) else l.render ++ ['/']

theorem joinWith_concat {names : List Text} (h : names ≠ []) (n : Text) :
    Text.joinWith ['/'] (names ++ [n]) = Text.joinWith ['/'] names ++ '/' :: n := by
  induction names with
  | nil => exact absurd rfl h
  | cons m rest ih =>
    cases rest with
    | nil => simp [Text.joinWith]
    | cons m' rest =>
      rw [List.cons_append, List.cons_append, Text.joinWith, ← List.cons_append, ih (List.cons_ne_nil _ _)]
      · simp [Text.joinWith]
      · simp

theorem render_step (l : Location) (n : Text) : (l.step (.name n)).render = l.front ++ n := by
  obtain ⟨absolute, names⟩ := l
  rw [step, render, front]
  cases names with
  | nil => cases absolute <;> rfl
  | cons m rest =>
    rw [joinWith_concat (List.cons_ne_nil m rest)]
    cases absolute <;> simp [render]

theorem front_ends (l : Location) : l.front = [] ∨ l.front.getLast? = some '/' := by
  rw [front]
  split
  · split <;> simp
  · exact .inr List.getLast?_concat

theorem exists_step {l : Location} (h : l.Proper) (hNames : l.names ≠ []) :
    ∃ (before : Location) (n : Text), l = before.step (.name n) ∧ IsStep n := by
  refine ⟨{ l with names := l.names.dropLast }, l.names.getLast hNames, ?_, h _ (List.getLast_mem hNames)⟩
  rw [step, List.dropLast_concat_getLast]

theorem directory_render {l : Location} (h : l.Proper) {n : Text} (hn : IsStep n) :
    directory (l.step (.name n)).render = some l.render := by
  have hHere : l.front ++ n ≠ ['.'] := by
    intro hEq
    rcases List.append_eq_singleton_iff.mp hEq with ⟨-, hEq⟩ | ⟨-, hEq⟩
    · exact hn.notHere hEq
    · exact hn.nonempty hEq
  rw [render_step, directory, if_neg (by simpa using hHere), parent_append hn l.front_ends]
  by_cases hNames : l.names = []
  · obtain ⟨absolute, names⟩ := l
    obtain rfl : names = [] := hNames
    cases absolute <;> rfl
  · have hFront : l.front = l.render ++ ['/'] := if_neg (by simpa using hNames)
    obtain ⟨before, m, rfl, hm⟩ := exists_step h hNames
    have hNonempty : (before.step (.name m)).render.reverse ≠ [] := by
      simp [render_step, hm.nonempty]
    have hTrimmed : trimmed ('/' :: (before.step (.name m)).render.reverse) =
        (before.step (.name m)).render.reverse := by
      rw [trimmed.eq_2 _ hNonempty, render_step, List.reverse_append, trimmed_reverse hm]
    rw [hFront, List.reverse_append, List.reverse_singleton, List.singleton_append, hTrimmed, List.reverse_reverse]
    split
    · rename_i hEmpty
      rw [Option.some.inj hEmpty] at hNonempty
      exact absurd rfl hNonempty
    · rfl

/-- The last step is the file name, if it is a name. -/
theorem fileName_render (l : Location) {n : Text} (h : IsName n) :
    fileName (l.step (.name n)).render = some n := by
  have hLast : (components (l.front ++ n)).getLast? = some (.name n) := by
    rcases l.front_ends with hEmpty | hSlash
    · rw [hEmpty, List.nil_append, h.components_eq, List.getLast?_singleton]
    · obtain ⟨front, hFront⟩ := List.getLast?_eq_some_iff.mp hSlash
      rw [hFront, List.append_assoc, List.singleton_append, h.components_slash, List.getLast?_concat]
  rw [render_step, fileName, hLast]

end Location

section

variable (dir : Path) {n : Text} (h : IsName n)
include h

theorem directory_normalize_join : directory (normalize (join dir n)) = some (normalize dir) := by
  rw [normalize, location_join dir h]
  exact Location.directory_render (proper_location dir) h.toIsStep

theorem fileName_normalize_join : fileName (normalize (join dir n)) = some n := by
  rw [normalize, location_join dir h]
  exact Location.fileName_render _ h

end

theorem eq_of_normalize_join_eq {dir dir' : Path} {m n : Text} (hm : IsName m) (hn : IsName n)
    (hSame : (join dir m).normalize = (join dir' n).normalize) : m = n := by
  have hFile := fileName_normalize_join dir hm
  rw [hSame, fileName_normalize_join dir' hn] at hFile
  exact (Option.some.inj hFile).symm

/-- Two names in a directory have different paths. -/
theorem join_inj (dir : Path) {m n : Text} (hm : IsName m) (hn : IsName n) : join dir m = join dir n ↔ m = n :=
  ⟨fun hEq => eq_of_normalize_join_eq hm hn (congrArg normalize hEq), fun hEq => by rw [hEq]⟩

end GoCommands.Path
