import DepLock.Proofs.Lock.Basic
import DepLock.Proofs.Solve.Selection
import DepLock.Proofs.Solve.Step

/-!
# Invariants of a solve

While the queue is worked through, every required project is chosen or waits, the version chosen for
a project is the one that is selected under the demands on it, and the packages used from a chosen
checkout have been followed unless the project waits: this is `Consistent`. What was chosen and
followed has had its effect: this is `Complete`. A step keeps both, so a solution can be read off
a state in which they hold and nothing waits.
-/

namespace DepLock.Solver

open SolveState

variable {sv : Solver} {p : SolveProblem} {s t u : SolveState} {root dep : ProjectRoot}
  {pending : List ProjectRoot}

/-- Whether choices and followed packages agree with the requirements, where some projects, that
were taken off the queue, are pending. -/
structure Consistent (sv : Solver) (p : SolveProblem) (pending : List ProjectRoot)
    (s : SolveState) : Prop where
  selected : ∀ root id v, s.chosen.get? root = some (id, v) →
    ∃ r, s.requirements.get? root = some r ∧ id = (effective p root r).1 ∧
      sv.sources.select id (effective p root r).2 p.lock = .ok v
  waiting : ∀ root, s.requirements.contains root = true →
    s.chosen.contains root = true ∨ root ∈ pending ++ s.queue
  followed : ∀ lister directory root rel, sv.lister = some lister →
    sv.workspace.directory? root = some directory → s.chosen.contains root = true →
    rel ∈ s.usedPackages p.lock root →
    s.followed.contains (root.absolute rel) = true ∨ root ∈ pending ++ s.queue
  sourced : ∀ root, ∀ rel ∈ s.packages root, sv.Sourced p root rel

namespace Consistent

/-- The demands that count and the id do not depend on the required packages. -/
theorem effective_congr {r r' : Requirement} (hdemands : r'.demands = r.demands)
    (hsource : r'.source = r.source) :
  effective p root r' = effective p root r
  := by
  rw [effective, effective, hdemands, hsource]

theorem empty :
  sv.Consistent p [] {}
  where
  selected := by simp
  waiting := by simp
  followed := by simp
  sourced := by simp [packages]

theorem moves (h : sv.Consistent p pending s) (hmoves : sv.Moves p s t) :
  sv.Consistent p pending t
  := by
  have hgrows := hmoves.grows
  have hqueue : pending ++ s.queue ⊆ pending ++ t.queue := by
    apply List.append_subset.2
    use List.subset_append_left pending t.queue
    apply List.Subset.trans hgrows.queue (List.subset_append_right pending t.queue)
  constructor
  · intro root id v hv
    rw [hgrows.chosen] at hv
    obtain ⟨r, hr, hid, hselect⟩ := h.selected root id v hv
    obtain ⟨r', hr', -, hkept⟩ := hgrows.kept root r hr
    obtain ⟨hdemands, hsource⟩ := hkept (SortedMap.contains_of_get? hv)
    use r', hr'
    rw [effective_congr hdemands hsource]
    use hid, hselect
  · intro root hroot
    rw [hgrows.chosen]
    rcases hgrows.queued root hroot with hroot | hroot
    · apply (h.waiting root hroot).imp_right fun hroot => hqueue hroot
    · apply Or.inr (List.mem_append_right pending hroot)
  · intro lister directory root rel hlister hdirectory hchosen hrel
    rw [hgrows.chosen] at hchosen
    rw [hgrows.followed]
    rcases hgrows.used root rel hchosen hrel with hrel | hroot
    · apply Or.imp_right fun hroot => hqueue hroot
      apply h.followed lister directory root rel hlister hdirectory hchosen hrel
    · apply Or.inr (List.mem_append_right pending hroot)
  · intro root rel hrel
    rcases Moves.sourced hmoves hrel with hrel | hsourced
    · apply h.sourced root rel hrel
    · apply hsourced

/-- The first project of the queue becomes pending. -/
theorem pop {queue : List ProjectRoot} (h : sv.Consistent p [] s)
    (hqueue : s.queue = root :: queue) :
  sv.Consistent p [root] { s with queue }
  where
  selected := h.selected
  waiting := by
    have hwaiting := h.waiting
    rw [hqueue] at hwaiting
    apply hwaiting
  followed := by
    have hfollowed := h.followed
    rw [hqueue] at hfollowed
    apply hfollowed
  sourced := h.sourced

/-- A pending project gets the version that is selected for it. -/
theorem choose {r : Requirement} {v : Version} (h : sv.Consistent p [root] s)
    (hr : s.requirements.get? root = some r)
    (hv : sv.sources.select (effective p root r).1 (effective p root r).2 p.lock = .ok v) :
  sv.Consistent p [root] { s with chosen := s.chosen.insert root ((effective p root r).1, v) }
  where
  selected := by
    intro root' id' v' h'
    rw [SortedMap.get?_insert] at h'
    split at h'
    next heq =>
      cases h'
      subst heq
      exact ⟨r, hr, rfl, hv⟩
    next => apply h.selected root' id' v' h'
  waiting := by
    intro root' hroot'
    rw [SortedMap.contains_insert, Bool.or_eq_true]
    apply (h.waiting root' hroot').imp_left Or.inr
  followed := by
    intro lister directory root' rel hlister hdirectory hchosen hrel
    by_cases heq : root' = root
    · apply Or.inr
      simp [heq]
    · simp only [SortedMap.contains_insert, heq, decide_false, Bool.false_or] at hchosen
      apply h.followed lister directory root' rel hlister hdirectory hchosen hrel
  sourced := h.sourced

/-- A pending project that is chosen, if required, and from which all that is used was followed,
is dealt with. -/
theorem finish (h : sv.Consistent p [root] s)
    (hchosen : s.requirements.contains root = true → s.chosen.contains root = true)
    (hfollowed : ∀ lister directory rel, sv.lister = some lister →
      sv.workspace.directory? root = some directory → s.chosen.contains root = true →
      rel ∈ s.usedPackages p.lock root →
      s.followed.contains (root.absolute rel) = true ∨ root ∈ s.queue) :
  sv.Consistent p [] s
  where
  selected := h.selected
  waiting := by
    intro root' hroot'
    by_cases heq : root' = root
    · subst heq
      apply Or.inl (hchosen hroot')
    · simpa [heq] using h.waiting root' hroot'
  followed := by
    intro lister directory root' rel hlister hdirectory hchosen' hrel
    by_cases heq : root' = root
    · subst heq
      apply hfollowed lister directory rel hlister hdirectory hchosen' hrel
    · simpa [heq] using h.followed lister directory root' rel hlister hdirectory hchosen' hrel
  sourced := h.sourced

end Consistent

/-- Whether a package of a project is required or locked. -/
def Recorded (p : SolveProblem) (s : SolveState) (root : ProjectRoot) (rel : String) : Prop :=
  rel ∈ s.packages root ∨ ∃ q ∈ p.lock.projects, q.root = root ∧ rel ∈ q.packages

theorem Recorded.mono {rel : String} (h : Extends s t) (hrel : Recorded p s root rel) :
  Recorded p t root rel
  := Or.imp_left h.packages hrel

/-- A package that is used is recorded. -/
theorem recorded_of_mem_usedPackages {rel : String} (h : rel ∈ s.usedPackages p.lock root) :
  Recorded p s root rel
  := by
  rcases mem_usedPackages.1 h with hrel | ⟨-, q, hq, hrel⟩
  · apply Or.inl hrel
  · obtain ⟨hmem, hroot⟩ := Lock.mem_of_get? hq
    exact .inr ⟨q, hmem, hroot, hrel⟩

/-- Whether followed packages are expanded and the rules of chosen checkouts are held. -/
structure Complete (sv : Solver) (p : SolveProblem) (s : SolveState) : Prop where
  expanded : ∀ start, s.followed.contains start = true → ∃ root rel, start = root.absolute rel ∧
    Recorded p s root rel ∧ sv.Expanded p s root start
  held : ∀ root dep rule, s.chosen.contains root = true → sv.Declares root dep rule →
    dep ≠ p.root → dep ≠ root → Held p s dep root.text rule

namespace Complete

theorem empty :
  sv.Complete p {}
  where
  expanded := by simp
  held := by simp

/-- What was followed stays expanded. -/
theorem expanded_mono {start : String} (h : sv.Complete p s) (hextends : Extends s t)
    (hstart : s.followed.contains start = true) :
  ∃ root rel, start = root.absolute rel ∧ Recorded p t root rel ∧ sv.Expanded p t root start
  := by
  obtain ⟨root, rel, heq, hrel, hexpanded⟩ := h.expanded start hstart
  use root, rel, heq, hrel.mono hextends
  apply hexpanded.mono hextends

/-- Nothing is lost when neither choices nor followed packages are added. -/
theorem extend (h : sv.Complete p s) (hextends : Extends s t) (hchosen : t.chosen = s.chosen)
    (hfollowed : t.followed = s.followed) :
  sv.Complete p t
  where
  expanded := by
    intro start hstart
    rw [hfollowed] at hstart
    apply h.expanded_mono hextends hstart
  held := by
    intro root dep rule hroot hdeclares hhome hown
    rw [hchosen] at hroot
    apply (h.held root dep rule hroot hdeclares hhome hown).mono hextends

theorem moves (h : sv.Complete p s) (hmoves : sv.Moves p s t) :
  sv.Complete p t
  := h.extend hmoves.grows.extension hmoves.grows.chosen hmoves.grows.followed

end Complete

/-! ### Steps -/

/-- Settling extends the state by the choice that is made and what it demands. -/
theorem extends_of_settle {r : Requirement} (hchosen : s.chosen.contains root = false)
    (h : sv.settle p root r s = .ok t) :
  Extends s t
  := by
  obtain ⟨v, -, hmoves, -⟩ := settle_spec h
  apply (Extends.choose hchosen ((effective p root r).1, v)).trans hmoves.grows.extension

theorem Consistent.settle {r : Requirement} (h : sv.Consistent p [root] s)
    (hr : s.requirements.get? root = some r) (ht : sv.settle p root r s = .ok t) :
  sv.Consistent p [root] t ∧ t.chosen.contains root = true
  := by
  obtain ⟨v, hv, hmoves, -⟩ := settle_spec ht
  use (h.choose hr hv).moves hmoves
  rw [hmoves.grows.chosen]
  simp [SortedMap.contains_insert]

theorem Complete.settle {r : Requirement} (h : sv.Complete p s)
    (hchosen : s.chosen.contains root = false) (ht : sv.settle p root r s = .ok t) :
  sv.Complete p t
  := by
  have hextends := extends_of_settle hchosen ht
  obtain ⟨v, -, hmoves, hheld⟩ := settle_spec ht
  have hsame := hmoves.grows.followed
  constructor
  · intro start hstart
    rw [hsame] at hstart
    apply h.expanded_mono hextends hstart
  · intro root' dep rule hroot' hdeclares hhome hown
    rw [hmoves.grows.chosen, SortedMap.contains_insert, Bool.or_eq_true] at hroot'
    rcases hroot' with hroot' | hroot'
    · obtain rfl := of_decide_eq_true hroot'
      apply hheld dep rule hdeclares hhome hown
    · apply (h.held root' dep rule hroot' hdeclares hhome hown).mono hextends

/-- Following imports extends the state. -/
theorem extends_of_followImports {lister : PackageLister} {directory : String}
    (hlister : sv.lister = some lister) (hdirectory : sv.workspace.directory? root = some directory)
    (h : sv.followImports p lister root directory s = .ok t) :
  Extends s t
  := by
  obtain ⟨followed, -, hmoves, -⟩ := followImports_spec hlister hdirectory h
  have hmarked : Extends s { s with followed } := .of_eq rfl rfl
  apply hmarked.trans hmoves.grows.extension

theorem Consistent.followImports {lister : PackageLister} {directory : String}
    (h : sv.Consistent p [root] s) (hchosen : s.chosen.contains root = true)
    (hlister : sv.lister = some lister) (hdirectory : sv.workspace.directory? root = some directory)
    (ht : sv.followImports p lister root directory s = .ok t) :
  sv.Consistent p [] t
  := by
  obtain ⟨followed, hfollowed, hmoves, -⟩ := followImports_spec hlister hdirectory ht
  have hmarked : sv.Consistent p [root] { s with followed } := by
    constructor
    · apply h.selected
    · apply h.waiting
    · intro lister' directory' root' rel hlister' hdirectory' hchosen' hrel
      apply Or.imp_left fun hstart => (hfollowed _).2 (.inr hstart)
      apply h.followed lister' directory' root' rel hlister' hdirectory' hchosen' hrel
    · apply h.sourced
  have hgrows := hmoves.grows
  apply (hmarked.moves hmoves).finish
  · intro _
    rw [hgrows.chosen]
    apply hchosen
  · intro _ _ rel _ _ _ hrel
    rw [hgrows.followed]
    -- what is used now and was not before the moves has queued the project again
    apply Or.imp_left fun hrel => (hfollowed _).2 (.inl (List.mem_map_of_mem hrel))
    apply hgrows.used root rel hchosen hrel

theorem Complete.followImports {lister : PackageLister} {directory : String}
    (h : sv.Complete p s) (hlister : sv.lister = some lister)
    (hdirectory : sv.workspace.directory? root = some directory)
    (ht : sv.followImports p lister root directory s = .ok t) :
  sv.Complete p t
  := by
  have hextends := extends_of_followImports hlister hdirectory ht
  obtain ⟨followed, hfollowed, hmoves, hexpanded⟩ := followImports_spec hlister hdirectory ht
  constructor
  · intro start hstart
    rw [hmoves.grows.followed] at hstart
    cases hold : s.followed.contains start with
    | true => apply h.expanded_mono hextends hold
    | false =>
      have hused := (hfollowed start).1 hstart
      rw [hold] at hused
      obtain ⟨rel, hrel, rfl⟩ := List.mem_map.1 (by simpa using hused)
      use root, rel, rfl
      use (recorded_of_mem_usedPackages hrel).mono hextends
      apply hexpanded _ hstart hold
  · intro root' dep rule hroot' hdeclares hhome hown
    rw [hmoves.grows.chosen] at hroot'
    apply (h.held root' dep rule hroot' hdeclares hhome hown).mono hextends

/-- What the work on the checkout of a chosen project keeps, after which it is dealt with. -/
theorem follow_spec (hconsistent : sv.Consistent p [root] s) (hcomplete : sv.Complete p s)
    (hchosen : s.chosen.contains root = true)
    (h : sv.follow p root s = .ok t) :
  Extends s t ∧ sv.Consistent p [] t ∧ sv.Complete p t
  := by
  rw [follow] at h
  split at h
  next lister directory hlister hdirectory =>
    use extends_of_followImports hlister hdirectory h
    use hconsistent.followImports hchosen hlister hdirectory h
    apply hcomplete.followImports hlister hdirectory h
  next hnone =>
    cases h
    use .refl s
    refine ⟨hconsistent.finish (fun _ => hchosen) ?_, hcomplete⟩
    intro lister directory rel hlister hdirectory
    apply absurd hdirectory (hnone lister directory hlister)

/-- What a step keeps: the state is extended, nothing is pending afterwards, and choices and
followed packages have had their effect. -/
theorem step_spec (hconsistent : sv.Consistent p [root] s) (hcomplete : sv.Complete p s)
    (h : sv.step p root s = .ok t) :
  Extends s t ∧ sv.Consistent p [] t ∧ sv.Complete p t
  := by
  rcases step_cases h with ⟨hnone, rfl⟩ | ⟨r, u, hr, hfollow, ⟨hchosen, rfl⟩ | ⟨hchosen, hsettle⟩⟩
  · have hcontains := SortedMap.contains_eq_false_iff.2 hnone
    use .refl t
    refine ⟨hconsistent.finish ?_ ?_, hcomplete⟩
    · intro hroot
      rw [hcontains] at hroot
      cases hroot
    · intro _ _ _ _ _ hroot _
      obtain ⟨⟨id, v⟩, hv⟩ := SortedMap.contains_iff.1 hroot
      obtain ⟨r, hr, -⟩ := hconsistent.selected root id v hv
      rw [hnone] at hr
      cases hr
  · apply follow_spec hconsistent hcomplete hchosen hfollow
  · obtain ⟨hsettled, hroot⟩ := hconsistent.settle hr hsettle
    obtain ⟨hextends, hkept⟩ :=
      follow_spec hsettled (hcomplete.settle hchosen hsettle) hroot hfollow
    exact ⟨(extends_of_settle hchosen hsettle).trans hextends, hkept⟩

/-! ### Runs -/

/-- What a run keeps; in the end nothing waits. -/
theorem run_spec {budget : Nat} (hconsistent : sv.Consistent p [] s) (hcomplete : sv.Complete p s)
    (h : sv.run p budget s = some (.ok t)) :
  Extends s t ∧ sv.Consistent p [] t ∧ sv.Complete p t ∧ t.queue = []
  := by
  replace h := runs_of_run h
  induction h with
  | done hqueue => exact ⟨.refl _, hconsistent, hcomplete, hqueue⟩
  | @step s t u root queue hqueue hu _ ih =>
    have hpop : Extends s { s with queue } := .of_eq rfl rfl
    obtain ⟨hstep, hconsistent', hcomplete'⟩ :=
      step_spec (hconsistent.pop hqueue) (hcomplete.extend hpop rfl rfl) hu
    obtain ⟨hrun, hend⟩ := ih hconsistent' hcomplete'
    exact ⟨(hpop.trans hstep).trans hrun, hend⟩

/-- A solution is read off a state that extends the start and in which nothing waits. -/
theorem solve_spec {budget : Nat} {solution : List LockedProject} {log : Log}
    (h : sv.solve p budget = some ⟨.ok solution, log⟩) :
  ∃ s t, sv.start p = .ok s ∧ sv.run p budget s = some (.ok t) ∧ Extends s t ∧
    sv.Consistent p [] t ∧ sv.Complete p t ∧ t.queue = [] ∧ solution = Solver.solution p t
  := by
  rw [solve] at h
  split at h
  next => cases h
  next s hs =>
    obtain ⟨hmoves, -⟩ := start_spec hs
    obtain ⟨r, hr, heq⟩ := Option.map_eq_some_iff.1 h
    cases r with
    | error f => cases heq
    | ok t =>
      cases heq
      obtain ⟨hextends, hkept⟩ :=
        run_spec (Consistent.empty.moves hmoves) (Complete.empty.moves hmoves) hr
      obtain ⟨hconsistent, hcomplete, hqueue⟩ := hkept
      exact ⟨s, t, hs, hr, hextends, hconsistent, hcomplete, hqueue, rfl⟩

/-! ### What moves keep -/

/-- Whether a condition on states is kept by the moves of a solve and does not depend on anything
but the requirements and on which projects are chosen, of which it may ask for some. -/
structure Persists (sv : Solver) (p : SolveProblem) (P : SolveState → Prop) : Prop where
  move : ∀ {s t}, sv.Move p s t → P s → P t
  of_eq : ∀ {s t : SolveState}, t.requirements = s.requirements →
    (∀ root, s.chosen.contains root = true → t.chosen.contains root = true) → P s → P t

namespace Persists

variable {P : SolveState → Prop}

theorem moves (h : sv.Persists p P) (hmoves : sv.Moves p s t) (hs : P s) :
  P t
  := by
  induction hmoves with
  | refl => apply hs
  | tail _ hmove ih => apply h.move hmove ih

theorem settle (h : sv.Persists p P) {r : Requirement} (ht : sv.settle p root r s = .ok t)
    (hs : P s) :
  P t
  := by
  obtain ⟨v, -, hmoves, -⟩ := settle_spec ht
  apply h.moves hmoves
  refine h.of_eq (s := s) rfl ?_ hs
  intro root' hroot'
  simp [SortedMap.contains_insert, hroot']

theorem followImports (h : sv.Persists p P) {lister : PackageLister} {directory : String}
    (hlister : sv.lister = some lister) (hdirectory : sv.workspace.directory? root = some directory)
    (ht : sv.followImports p lister root directory s = .ok t) (hs : P s) :
  P t
  := by
  obtain ⟨followed, -, hmoves, -⟩ := followImports_spec hlister hdirectory ht
  apply h.moves hmoves
  exact h.of_eq (s := s) rfl (fun _ => id) hs

theorem follow (h : sv.Persists p P) (ht : sv.follow p root s = .ok t) (hs : P s) :
  P t
  := by
  rw [Solver.follow] at ht
  split at ht
  next lister directory hlister hdirectory => apply h.followImports hlister hdirectory ht hs
  next =>
    cases ht
    apply hs

theorem step (h : sv.Persists p P) (ht : sv.step p root s = .ok t) (hs : P s) :
  P t
  := by
  rcases step_cases ht with ⟨-, rfl⟩ | ⟨r, u, -, hfollow, ⟨-, rfl⟩ | ⟨-, hsettle⟩⟩
  · apply hs
  · apply h.follow hfollow hs
  · apply h.follow hfollow (h.settle hsettle hs)

theorem run (h : sv.Persists p P) {budget : Nat} (ht : sv.run p budget s = some (.ok t))
    (hs : P s) :
  P t
  := by
  replace ht := runs_of_run ht
  induction ht with
  | done => apply hs
  | @step s t u root queue _ hu _ ih =>
    apply ih
    apply h.step hu
    exact h.of_eq (s := s) rfl (fun _ => id) hs

end Persists

end DepLock.Solver
