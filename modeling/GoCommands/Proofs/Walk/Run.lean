import GoCommands.Proofs.Walk.Chains

/-! # Runs of a walk as searches

A run takes the chains of a breadth-first search from its queue and appends the tagged directory of each,
as long as the directories can be visited and the walk is not over.
-/

namespace GoCommands

namespace Walk

def queueOf (start : Path) (chains : List (List Text)) : List (Path × Nat) :=
  chains.map fun chain => (directoryAt start chain, chain.length)

section

variable (fs : FileSystem) (options : WalkOptions) (start : Path)

/-- The directory at the end of the chain and the files in it can be read. -/
def Visitable (chain : List Text) : Prop := ∃ found, visit fs options (directoryAt start chain) = .ok found

variable {fs options start} {fuel : Nat} {found : List TaggedDir} {chain : List Text} {queue : List (List Text)}

theorem run_nil (fuel : Nat) (found : List TaggedDir) :
    run fs options fuel ⟨queueOf start [], found⟩ = some (.ok found) := by
  cases fuel <;> rfl

theorem run_cons_of_visitable (h : Visitable fs options start chain)
    (hGoesOn : isOver options ⟨queueOf start queue, found⟩ chain.length = false) :
    run fs options (fuel + 1) ⟨queueOf start (chain :: queue), found⟩ =
      run fs options fuel ⟨queueOf start (queue ++ children fs options start chain),
        found ++ (taggedDir fs options start chain).toList⟩ := by
  obtain ⟨⟨files, dirs⟩, hVisit⟩ := h
  have hChildren : (children fs options start chain).map (fun c => (directoryAt start c, c.length)) =
      dirs.map fun d => (d, chain.length + 1) := by
    rw [← map_directoryAt_children fs options start hVisit, List.map_map]
    apply List.map_congr_left
    intro longer hLonger
    rw [length_of_mem_children fs options start hLonger]
    rfl
  have hFound : (taggedDir fs options start chain).toList =
      if files.isEmpty then [] else [⟨directoryAt start chain, chain.length, files⟩] := by
    rw [taggedDir, hVisit]
    cases files <;> rfl
  simp only [queueOf, List.map_cons, run, hVisit, List.map_append, hChildren, hFound]
  rw [← queueOf, hGoesOn]
  rfl

theorem isOver_multiPackage (h : options.multiPackage) (s : State) (depth : Nat) :
    isOver options s depth = false := by
  rw [isOver, h]
  rfl

theorem isOver_of_le {s : State} {depth : Nat} (h : ∀ dir ∈ s.found, depth ≤ dir.depth) :
    isOver options s depth = false := by
  rw [isOver]
  cases hHead : s.found.head? with
  | none => exact Bool.and_false _
  | some first =>
    have hLe := h first (List.mem_of_mem_head? hHead)
    simp [Nat.not_lt.mpr hLe]

theorem append_filterMap_taggedDir (found : List TaggedDir) (chain : List Text) (order : List (List Text)) :
    found ++ (chain :: order).filterMap (taggedDir fs options start) =
      (found ++ (taggedDir fs options start chain).toList) ++
        order.filterMap (taggedDir fs options start) := by
  rw [List.append_assoc]
  cases hTagged : taggedDir fs options start chain <;> simp [hTagged]

/-- A run goes along a search while all directories can be visited and it is not over. -/
theorem run_of_visits {order rest : List (List Text)}
    (h : Search.Visits (children fs options start) queue order rest)
    (hVisitable : ∀ chain ∈ order, Visitable fs options start chain)
    (hDepth : ∀ chain ∈ order, ∀ dir ∈ found ++ order.filterMap (taggedDir fs options start),
      chain.length ≤ dir.depth) :
    run fs options (fuel + order.length) ⟨queueOf start queue, found⟩ =
      run fs options fuel ⟨queueOf start rest, found ++ order.filterMap (taggedDir fs options start)⟩ := by
  induction h generalizing found with
  | done queue => rw [List.filterMap_nil, List.append_nil]; rfl
  | @next chain queue order rest h ih =>
    have hGoesOn : isOver options ⟨queueOf start queue, found⟩ chain.length = false :=
      isOver_of_le fun dir hDir => hDepth chain (.head order) dir (List.mem_append_left _ hDir)
    -- The bound speaks of the whole result, so it stays the same while the found directories move to the front.
    rw [append_filterMap_taggedDir] at hDepth ⊢
    rw [List.length_cons, ← Nat.add_assoc, run_cons_of_visitable (hVisitable chain (.head order)) hGoesOn]
    exact ih (fun c hc => hVisitable c (.tail chain hc)) fun c hc => hDepth c (.tail chain hc)

/-- A run for several packages that succeeds is a complete search. -/
theorem exists_visits_of_run (hMulti : options.multiPackage) {dirs : List TaggedDir}
    (h : run fs options fuel ⟨queueOf start queue, found⟩ = some (.ok dirs)) :
    ∃ order, Search.Visits (children fs options start) queue order [] ∧
      (∀ chain ∈ order, Visitable fs options start chain) ∧ order.length ≤ fuel ∧
      dirs = found ++ order.filterMap (taggedDir fs options start) := by
  induction fuel generalizing queue found with
  | zero =>
    cases queue with
    | nil =>
      rw [run_nil] at h
      obtain rfl := Except.ok.inj (Option.some.inj h)
      exact ⟨[], .done [], List.forall_mem_nil _, Nat.zero_le _, (List.append_nil found).symm⟩
    | cons chain queue => cases h
  | succ fuel ih =>
    cases queue with
    | nil =>
      rw [run_nil] at h
      obtain rfl := Except.ok.inj (Option.some.inj h)
      exact ⟨[], .done [], List.forall_mem_nil _, Nat.zero_le _, (List.append_nil found).symm⟩
    | cons chain queue =>
      cases hVisit : visit fs options (directoryAt start chain) with
      | error cause =>
        simp only [queueOf, List.map_cons, run, hVisit, isOver_multiPackage hMulti] at h
        cases h
      | ok result =>
        have hVisitable : Visitable fs options start chain := ⟨result, hVisit⟩
        rw [run_cons_of_visitable hVisitable (isOver_multiPackage hMulti _ _)] at h
        obtain ⟨order, hOrder, hAll, hLength, rfl⟩ := ih h
        refine ⟨chain :: order, .next hOrder, List.forall_mem_cons.mpr ⟨hVisitable, hAll⟩, ?_, ?_⟩
        · exact Nat.succ_le_succ hLength
        · rw [append_filterMap_taggedDir]

end

end Walk

theorem walk_of_multiPackage {options : WalkOptions} (hMulti : options.multiPackage) (fuel : Nat)
    (fs : FileSystem) (start : Path) : walk fuel fs start options = Walk.run fs options fuel (Walk.start start) := by
  have hNone : ∀ found, Walk.conflict options found = none := by
    rintro (_ | ⟨first, _ | ⟨second, rest⟩⟩)
    · rfl
    · rfl
    · exact if_pos hMulti
  rw [walk]
  cases hRun : Walk.run fs options fuel (Walk.start start) with
  | none => rfl
  | some result =>
    cases result with
    | error cause => rfl
    | ok found => simp only [Option.map_some, hNone]

theorem exists_visits_of_walk {fuel : Nat} {fs : FileSystem} {start : Path} {options : WalkOptions}
    (hMulti : options.multiPackage) {dirs : List TaggedDir} (h : walk fuel fs start options = some (.ok dirs)) :
    ∃ order, Search.Visits (Walk.children fs options start) [[]] order [] ∧
      (∀ chain ∈ order, Walk.Visitable fs options start chain) ∧ order.length ≤ fuel ∧
      dirs = order.filterMap (Walk.taggedDir fs options start) := by
  rw [walk_of_multiPackage hMulti] at h
  have hRun : Walk.run fs options fuel ⟨Walk.queueOf start [[]], []⟩ = some (.ok dirs) := h
  exact Walk.exists_visits_of_run hMulti hRun

end GoCommands
