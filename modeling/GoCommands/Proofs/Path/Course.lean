import GoCommands.Proofs.Path.Normal
import Mathlib.Data.List.Basic

/-! # How far a path leads up

A path leads up by each `..` that has no name before it to take back, and from there down its names. The
normalized path only keeps whether the number of steps up is even or odd: a second `..` takes back the first
one, also at the root, where `..` leads nowhere.
-/

namespace GoCommands.Path

/-- The way that a path describes. -/
structure Course where
  absolute : Bool
  /-- Number of the `..` that take back no name. -/
  ups : Nat
  names : List Text
deriving DecidableEq, Repr

namespace Course

def step (c : Course) : Component → Course
  | .root => ⟨true, 0, []⟩
  | .here => c
  | .up => match c.names with
    | [] => { c with ups := c.ups + 1 }
    | _ :: _ => { c with names := c.names.dropLast }
  | .name n => { c with names := c.names ++ [n] }

/-- The shortest path with this course. Nothing is above the root. -/
def canonical (c : Course) : Path :=
  if c.absolute then '/' :: Text.joinWith ['/'] c.names
  else if c.ups = 0 ∧ c.names = [] then ['.']
  else Text.joinWith ['/'] (List.replicate c.ups ['.', '.'] ++ c.names)

/-- The location that is left of a course. -/
def folded (c : Course) : Location := ⟨c.absolute, List.replicate (c.ups % 2) ['.', '.'] ++ c.names⟩

/-- The steps of the canonical path. -/
def steps (c : Course) : List Text :=
  if c.absolute then c.names else List.replicate c.ups ['.', '.'] ++ c.names

end Course

def course (p : Path) : Course := p.components.foldl Course.step ⟨false, 0, []⟩

namespace Location

theorem joinWith_ne_nil {names : List Text} (h : ∀ n ∈ names, IsStep n) (hNames : names ≠ []) :
    Text.joinWith ['/'] names ≠ [] := by
  intro hEmpty
  have hSplit := Text.splitAt_joinWith hNames fun n hn => (h n hn).noSlash
  rw [hEmpty] at hSplit
  exact (h [] (hSplit ▸ .head _)).nonempty rfl

theorem joinWith_inj {names names' : List Text} (h : ∀ n ∈ names, IsStep n) (h' : ∀ n ∈ names', IsStep n) :
    Text.joinWith ['/'] names = Text.joinWith ['/'] names' ↔ names = names' := by
  refine ⟨fun hSame => ?_, congrArg _⟩
  by_cases hNames : names = []
  · by_contra hNe
    refine joinWith_ne_nil h' (fun hNames' => hNe (hNames.trans hNames'.symm)) ?_
    rw [← hSame, hNames]
    rfl
  · have hNames' : names' ≠ [] := by
      rintro rfl
      exact joinWith_ne_nil h hNames hSame
    rw [← Text.splitAt_joinWith hNames fun n hn => (h n hn).noSlash, hSame,
      Text.splitAt_joinWith hNames' fun n hn => (h' n hn).noSlash]

theorem joinWith_ne_here {names : List Text} (h : ∀ n ∈ names, IsStep n) : Text.joinWith ['/'] names ≠ ['.'] := by
  intro hHere
  have hNames : names ≠ [] := by
    rintro rfl
    cases hHere
  have hSplit := Text.splitAt_joinWith hNames fun n hn => (h n hn).noSlash
  rw [hHere] at hSplit
  exact (h ['.'] (hSplit ▸ .head _)).notHere rfl

theorem isAbsolute_render {l : Location} (h : l.Proper) : isAbsolute l.render = l.absolute := by
  obtain ⟨absolute, names⟩ := l
  cases absolute with
  | true => rfl
  | false =>
    cases names with
    | nil => rfl
    | cons n rest =>
      have hStep : IsStep n := h n (.head _)
      obtain ⟨c, cs, rfl⟩ := List.exists_cons_of_ne_nil hStep.nonempty
      have hHead : (render ⟨false, (c :: cs) :: rest⟩).head? = some c := by
        cases rest <;> rfl
      rw [isAbsolute, hHead, beq_eq_false_iff_ne]
      intro hSlash
      exact hStep.noSlash (Option.some.inj hSlash ▸ .head _)

/-- What is written shows each step. -/
theorem Proper.render_inj {l l' : Location} (h : l.Proper) (h' : l'.Proper) : l.render = l'.render ↔ l = l' := by
  refine ⟨fun hSame => ?_, congrArg render⟩
  have hAbsolute : l.absolute = l'.absolute := by rw [← isAbsolute_render h, hSame, isAbsolute_render h']
  obtain ⟨absolute, names⟩ := l
  obtain ⟨absolute', names'⟩ := l'
  obtain rfl : absolute = absolute' := hAbsolute
  rw [mk.injEq, eq_self, true_and, ← joinWith_inj h h']
  cases absolute with
  | true => exact List.tail_eq_of_cons_eq hSame
  | false =>
    rw [render, render] at hSame
    cases names with
    | nil =>
      cases names' with
      | nil => rfl
      | cons n' rest' => exact absurd hSame.symm (joinWith_ne_here h')
    | cons n rest =>
      cases names' with
      | nil => exact absurd hSame (joinWith_ne_here h)
      | cons n' rest' => exact hSame

end Location

namespace Course

theorem folded_step (c : Course) (component : Component) :
    (c.step component).folded = c.folded.step component := by
  cases component with
  | root => rfl
  | here => rfl
  | name n => simp only [step, folded, Location.step, List.append_assoc]
  | up =>
    obtain ⟨absolute, ups, names⟩ := c
    cases names with
    | nil =>
      rcases Nat.mod_two_eq_zero_or_one ups with hEven | hOdd
      · have hNext : (ups + 1) % 2 = 1 := by omega
        simp [step, folded, Location.step, hEven, hNext]
      · have hNext : (ups + 1) % 2 = 0 := by omega
        simp [step, folded, Location.step, hOdd, hNext]
    | cons n rest =>
      have hNonempty : List.replicate (ups % 2) ['.', '.'] ++ n :: rest ≠ [] := by simp
      obtain ⟨m, ms, hNames⟩ := List.exists_cons_of_ne_nil hNonempty
      simp only [step, folded, Location.step]
      rw [← List.dropLast_append_of_ne_nil (List.cons_ne_nil n rest), hNames]

theorem names_step {c : Course} {component : Component} (h : ∀ m ∈ c.names, IsName m)
    (hName : ∀ m, component = .name m → IsName m) : ∀ m ∈ (c.step component).names, IsName m := by
  cases component with
  | root => exact List.forall_mem_nil _
  | here => exact h
  | up =>
    rw [step]
    split
    · exact h
    · exact fun m hm => h m ((List.dropLast_sublist _).subset hm)
  | name n =>
    intro m hm
    rcases List.mem_append.mp hm with hm | hm
    · exact h m hm
    · rw [List.mem_singleton.mp hm]
      exact hName n rfl

theorem names_foldl_step {components : List Component} {c : Course}
    (hComponents : ∀ m, .name m ∈ components → IsName m) (h : ∀ m ∈ c.names, IsName m) :
    ∀ m ∈ (components.foldl step c).names, IsName m := by
  induction components generalizing c with
  | nil => exact h
  | cons component components ih =>
    apply ih
    · exact fun m hm => hComponents m (.tail _ hm)
    · exact names_step h fun m hm => hComponents m (hm ▸ .head _)

theorem canonical_eq (c : Course) : c.canonical = Location.render ⟨c.absolute, c.steps⟩ := by
  obtain ⟨absolute, ups, names⟩ := c
  cases absolute with
  | true => rfl
  | false => simp [canonical, steps, Location.render, List.replicate_eq_nil_iff]

end Course

theorem location_eq_folded (p : Path) : p.location = p.course.folded := by
  have hStart : Course.folded ⟨false, 0, []⟩ = ⟨false, []⟩ := rfl
  rw [location, course, ← hStart]
  exact List.foldl_hom Course.folded fun c component => (c.folded_step component).symm

theorem isName_of_mem_course {p : Path} {n : Text} (h : n ∈ p.course.names) : IsName n :=
  Course.names_foldl_step (fun _ hm => isName_of_mem_components hm) (List.forall_mem_nil _) n h

section

variable (p : Path)

theorem isStep_of_mem_replicate_up {k : Nat} {n : Text} (h : n ∈ List.replicate k ['.', '.'] ++ p.course.names) :
    IsStep n := by
  rcases List.mem_append.mp h with hUp | hName
  · rw [List.eq_of_mem_replicate hUp]
    exact Location.isStep_up
  · exact (isName_of_mem_course hName).toIsStep

theorem proper_folded : p.course.folded.Proper := fun _ hn => isStep_of_mem_replicate_up p hn

theorem proper_steps : Location.Proper ⟨p.course.absolute, p.course.steps⟩ := by
  rw [Location.Proper, Course.steps]
  split
  · exact fun n hn => (isName_of_mem_course hn).toIsStep
  · exact fun n hn => isStep_of_mem_replicate_up p hn

theorem normalize_eq_canonical_iff : normalize p = p.course.canonical ↔
    if p.course.absolute then p.course.ups % 2 = 0 else p.course.ups ≤ 1 := by
  rw [normalize, location_eq_folded, Course.canonical_eq, (proper_folded p).render_inj (proper_steps p),
    Course.folded, Location.mk.injEq, eq_self, true_and, Course.steps]
  split
  · rw [List.append_left_eq_self, List.replicate_eq_nil_iff]
  · rw [List.append_cancel_right_eq, List.replicate_left_inj]
    omega

theorem normalize_normalize : normalize (normalize p) = normalize p := by
  rw [normalize, location_normalize, normalize]

/-- Names hide no step up. -/
theorem folded_inj (q : Path) : p.course.folded = q.course.folded ↔ p.course.absolute = q.course.absolute ∧
    p.course.names = q.course.names ∧ p.course.ups % 2 = q.course.ups % 2 := by
  have hUps : ∀ r : Path, r.course.folded.names.count ['.', '.'] = r.course.ups % 2 := by
    intro r
    have hNames : r.course.names.count ['.', '.'] = 0 :=
      List.count_eq_zero.mpr fun hUp => (isName_of_mem_course hUp).notUp rfl
    rw [Course.folded, List.count_append, List.count_replicate_self, hNames, Nat.add_zero]
  constructor
  · intro h
    have hParity : p.course.ups % 2 = q.course.ups % 2 := by rw [← hUps, h, hUps]
    rw [Course.folded, Course.folded, Location.mk.injEq, hParity, List.append_cancel_left_eq] at h
    exact ⟨h.1, h.2, hParity⟩
  · rintro ⟨hAbsolute, hNames, hParity⟩
    rw [Course.folded, Course.folded, hAbsolute, hNames, hParity]

/-- A normalized path is the canonical one exactly if the path leads up at most once, or from the root an even
number of times. Normalizing it again changes nothing, and two paths are normalized to one exactly if they
lead down the same names from the same start, up to an even number of steps above it. -/
theorem normalize_canonical_iff : (normalize p = p.course.canonical ↔
      if p.course.absolute then p.course.ups % 2 = 0 else p.course.ups ≤ 1) ∧
    normalize (normalize p) = normalize p ∧
    ∀ q, normalize p = normalize q ↔ p.course.absolute = q.course.absolute ∧
      p.course.names = q.course.names ∧ p.course.ups % 2 = q.course.ups % 2 := by
  refine ⟨normalize_eq_canonical_iff p, normalize_normalize p, fun q => ?_⟩
  rw [normalize, normalize, (resolved_location p).render_inj (resolved_location q), location_eq_folded,
    location_eq_folded, folded_inj]

end

/-- Two steps up are lost, so two places share one path, and a step up from the root is kept. -/
theorem normalize_ne_canonical :
    normalize "../../a".toList ≠ (course "../../a".toList).canonical ∧
    normalize "../../a".toList = normalize "a".toList ∧
    (course "../../a".toList).canonical ≠ (course "a".toList).canonical ∧
    normalize "/../a".toList ≠ (course "/../a".toList).canonical := by
  decide

end GoCommands.Path
