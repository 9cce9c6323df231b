import DepLock.Proofs.Solve.Imports
import DepLock.Proofs.Solve.Retrace

/-!
# Solving again with the lock of a solution

A solve that starts from the lock of an earlier solution succeeds and chooses the same versions. All
projects of the solution are required from the start then, and come up in another order. But the
second solve retraces the first, so every locked version is met by the demands on it and is kept.
-/

namespace DepLock

/-- The problem with another lock. -/
def SolveProblem.withLock (p : SolveProblem) (lock : Lock) : SolveProblem := { p with lock }

namespace Solver

open SolveState

variable {sv : Solver} {p : SolveProblem} {s t u : SolveState} {root dep : ProjectRoot}
  {q : LockedProject} {budget : Nat} {lock : Lock} {v : Version} {id : ProjectId}
  {rel path : String}

/-! ### The lock of a solution -/

/-- The lock in which the choices of a state are recorded. -/
def relock (p : SolveProblem) (t : SolveState) : Lock := .ofProjects (solution p t)

namespace Finished

/-- What the lock of a solution holds for a project. -/
theorem get?_relock (h : sv.Finished p t) (hv : t.chosen.get? root = some (id, v)) :
  (relock p t).get? root = some (.of id v (t.usedPackages p.lock root))
  := by
  have hmem : LockedProject.of id v (t.usedPackages p.lock root) ∈ solution p t :=
    List.mem_map.2 ⟨(root, id, v), SortedMap.get?_eq_some_iff.1 hv, rfl⟩
  have hlocked := Lock.get?_ofProjects h.solution_distinct hmem
  have hroot : (LockedProject.of id v (t.usedPackages p.lock root)).root = root :=
    h.root_of_chosen hv
  rw [hroot] at hlocked
  apply hlocked

/-- Under demands that the chosen version meets, it is selected with the lock of the solution. -/
theorem select_relock (h : sv.Finished p t) (hv : t.chosen.get? root = some (id, v))
    {id' : ProjectId} (hid : id'.root = root) {demands : List Demand}
    (hmeets : v.meets demands = true) :
  sv.sources.select id' demands (relock p t) = .ok v
  := by
  rw [← hid] at hv
  apply SourceManager.select_of_locked (h.get?_relock hv) hmeets

/-- What is used when a solve with the lock of the solution retraces the first one was used
there. -/
theorem used_of_retraces (h : sv.Finished p t) (hretraces : Retraces p t s)
    (hv : t.chosen.get? root = some (id, v)) (hrel : rel ∈ s.usedPackages (relock p t) root) :
  rel ∈ t.usedPackages p.lock root
  := by
  rcases mem_usedPackages.1 hrel with hrel | ⟨-, q, hq, hrel⟩
  · apply mem_usedPackages.2 (.inl (hretraces.packages root rel hrel))
  · rw [h.get?_relock hv] at hq
    cases hq
    apply mem_sortDedup.1 hrel

end Finished

/-! ### Steps of the second solve -/

/-- Whether a state retraces a finished one and requires everything that was chosen there. -/
structure Relocked (p : SolveProblem) (t s : SolveState) : Prop extends Retraces p t s where
  complete : ∀ root, t.chosen.contains root = true → s.requirements.contains root = true

/-- Whether a part of the second solve succeeds, and leaves no more outstanding than it found. -/
def Proceeds (p : SolveProblem) (t s : SolveState) (r : Except SolveFailure SolveState) : Prop :=
  ∃ u, r = .ok u ∧ Relocked p t u ∧ outstanding t u ≤ outstanding t s

theorem Proceeds.of_le {r : Except SolveFailure SolveState} (h : Proceeds p t u r)
    (hle : outstanding t u ≤ outstanding t s) :
  Proceeds p t s r
  := by
  obtain ⟨u', hr, hu', hless⟩ := h
  exact ⟨u', hr, hu', hless.trans hle⟩

namespace Relocked

/-- Queue, messages and followed packages do not matter. -/
theorem of_eq (h : Relocked p t s) (hrequirements : u.requirements = s.requirements)
    (hchosen : u.chosen = s.chosen) :
  Relocked p t u
  where
  toRetraces := h.toRetraces.of_eq hrequirements hchosen
  complete := by
    rw [hrequirements]
    apply h.complete

/-- Rules that admit what was chosen join, or are met already. -/
theorem joinRules (h : Relocked p t s) {rules : List (ProjectRoot × ProjectRule)}
    (hrules : ∀ e ∈ rules, e.1 ≠ p.root → e.1 ≠ root → ∃ id v,
      t.chosen.get? e.1 = some (id, v) ∧
        (p.manifest.overrides.contains e.1 = false → e.2.constraint.admits v = true)) :
  Proceeds p t s (joinRules (p.withLock lock) root rules s)
  := by
  induction rules generalizing s with
  | nil => exact ⟨s, rfl, h, Nat.le_refl _⟩
  | cons e rules ih =>
    obtain ⟨dep, rule⟩ := e
    obtain ⟨hrule, hrest⟩ := List.forall_mem_cons.1 hrules
    rw [Solver.joinRules]
    split
    next => apply ih h hrest
    next hother =>
      rw [not_or] at hother
      obtain ⟨id, v, hv, hadmits⟩ := hrule hother.1 hother.2
      split
      next id' v' hv' =>
        obtain ⟨id'', hsame⟩ := h.chosen dep id' v' hv'
        rw [hv] at hsame
        cases hsame
        have hmet : ((p.withLock lock).manifest.overrides.contains dep
            || rule.constraint.admits v) = true := by
          change (p.manifest.overrides.contains dep || _) = true
          cases hover : p.manifest.overrides.contains dep with
          | true => rfl
          | false => apply hadmits hover
        rw [if_pos hmet]
        apply ih h hrest
      next =>
        have hdep := h.complete dep (SortedMap.contains_of_get? hv)
        have hjoin : Relocked p t ((s.require dep).modify dep fun r => r.join root.text rule) := by
          use h.toRetraces.join root.text hv hadmits
          intro root' hroot'
          rw [contains_require_modify, h.complete root' hroot', Bool.or_true]
        apply (ih hjoin hrest).of_le
        have hpackages (r : Requirement) : (r.join root.text rule).packages = r.packages := rfl
        rw [outstanding_require_modify hpackages hdep]

/-- Following the manifest of a checkout succeeds again. -/
theorem followManifest (hfinished : sv.Finished p t) (h : Relocked p t s) {directory : String}
    (hdirectory : sv.workspace.directory? root = some directory)
    (hroot : t.chosen.contains root = true) :
  Proceeds p t s (sv.followManifest (p.withLock lock) root directory s)
  := by
  rw [Solver.followManifest]
  have htold : Relocked p t { s with log := s.log ++ (sv.analyzer.derive directory root).log } :=
    h.of_eq rfl rfl
  split
  next => exact ⟨_, rfl, htold, Nat.le_refl _⟩
  next manifest _ hderive =>
    apply htold.joinRules
    intro e he hhome hown
    apply hfinished.chosen_of_held
    apply hfinished.complete.held root e.1 e.2 hroot _ hhome hown
    exact ⟨directory, manifest, _, hdirectory, hderive, SortedMap.get?_eq_some_iff.2 he⟩

/-- The locked version of a project is chosen again. -/
theorem settle (hfinished : sv.Finished p t) (h : Relocked p t s) {r : Requirement}
    (hr : s.requirements.get? root = some r) :
  Proceeds p t s (sv.settle (p.withLock (relock p t)) root r s)
  := by
  have hroot := h.required root (SortedMap.contains_of_get? hr)
  obtain ⟨⟨id, v⟩, hv⟩ := SortedMap.contains_iff.1 hroot
  have hmeets := h.meets root id v hv
  rw [asked, hr] at hmeets
  have hselect : sv.sources.select (effective p root r).1 (effective p root r).2 (relock p t)
      = .ok v := hfinished.select_relock hv (root_effective p root r) hmeets
  have hchoose : Relocked p t
      { s with chosen := s.chosen.insert root ((effective p root r).1, v) } :=
    ⟨h.toRetraces.choose hv, h.complete⟩
  have heffective : effective (p.withLock (relock p t)) root r = effective p root r := rfl
  have hlock : (p.withLock (relock p t)).lock = relock p t := rfl
  simp only [Solver.settle, heffective, hlock, hselect]
  split
  next directory hdirectory => apply hchoose.followManifest hfinished hdirectory hroot
  next => exact ⟨_, rfl, hchoose, Nat.le_refl _⟩

/-- Imports that are covered in the finished state are required again. -/
theorem requireFrom (hfinished : sv.Finished p t) (h : Relocked p t s) {paths : List String}
    (hpaths : ∀ path ∈ paths, p.root.contains path = false → root.contains path = false →
      sv.Covers t path) :
  Proceeds p t s (sv.requireFrom (p.withLock lock) root paths s)
  := by
  induction paths generalizing s with
  | nil => exact ⟨s, rfl, h, Nat.le_refl _⟩
  | cons path paths ih =>
    obtain ⟨hpath, hrest⟩ := List.forall_mem_cons.1 hpaths
    rw [Solver.requireFrom]
    split
    next => apply ih h hrest
    next hother =>
      rw [Bool.or_eq_true, not_or] at hother
      obtain ⟨dep, hdep, hrel⟩ :=
        hpath (Bool.eq_false_iff.2 hother.1) (Bool.eq_false_iff.2 hother.2)
      have hrequired := h.complete dep
        (hfinished.chosen_of_contains (contains_of_mem_packages hrel))
      have huse : Relocked p t (s.use dep (dep.relative path)) := by
        use h.toRetraces.use hfinished hrel
        intro root' hroot'
        have hgrows : Grows lock s (s.use dep (dep.relative path)) := grows_use s dep _
        apply hgrows.extension.contains (h.complete root' hroot')
      rw [hdep]
      apply (ih huse hrest).of_le (outstanding_use hrequired hrel)

/-- Following the imports of a checkout succeeds again. -/
theorem followImports (hfinished : sv.Finished p t) (hdeducible : sv.Deducible p t)
    (h : Relocked p t s) {lister : PackageLister} {directory : String}
    (hlister : sv.lister = some lister) (hdirectory : sv.workspace.directory? root = some directory)
    (hroot : t.chosen.contains root = true) :
  Proceeds p t s (sv.followImports (p.withLock (relock p t)) lister root directory s)
  := by
  obtain ⟨⟨id, v⟩, hv⟩ := SortedMap.contains_iff.1 hroot
  have hrelock := hfinished.get?_relock hv
  have hnewly := mem_newlyUsed root (s.usedPackages (relock p t) root) s.followed
  simp only [Solver.followImports]
  have hmarked : Relocked p t
      { s with followed := (newlyUsed root (s.usedPackages (relock p t) root) s.followed).2 } :=
    h.of_eq rfl rfl
  apply hmarked.requireFrom hfinished
  intro path hpath hhome hown
  obtain ⟨start, hstart, e, he, hexternal, hstandard⟩ := mem_importsOf.1 hpath
  obtain ⟨rel, hrel, rfl⟩ := List.mem_map.1 ((hnewly start).1.1 hstart).1
  have hused : rel ∈ t.usedPackages p.lock root :=
    hfinished.used_of_retraces h.toRetraces hv hrel
  have hleads : sv.Leads root (root.absolute rel) path := by
    split at he
    next tree htree =>
      exact ⟨lister, directory, tree, e, hlister, hdirectory, htree, he, hexternal, hstandard⟩
    next => simp at he
  have hq : LockedProject.of id v (t.usedPackages p.lock root) ∈ solution p t :=
    Lock.mem_of_mem_ofProjects (Lock.mem_of_get? hrelock).1
  obtain ⟨-, hqroot⟩ := Lock.mem_of_get? hrelock
  rw [← hqroot] at hleads hown
  apply hfinished.covers hdeducible hq (mem_sortDedup.2 hused) hleads hhome hown

/-- A project that comes up in the second solve is dealt with. -/
theorem step (hfinished : sv.Finished p t) (hdeducible : sv.Deducible p t) (h : Relocked p t s)
    (root : ProjectRoot) :
  Proceeds p t s (sv.step (p.withLock (relock p t)) root s)
  := by
  rw [Solver.step]
  split
  next => exact ⟨s, rfl, h, Nat.le_refl _⟩
  next r hr =>
    have hroot := h.required root (SortedMap.contains_of_get? hr)
    -- whatever is done once a version is chosen
    have hchoose : ∀ follow : SolveState → Except SolveFailure SolveState,
        (∀ u, Relocked p t u → outstanding t u ≤ outstanding t s → Proceeds p t s (follow u)) →
        Proceeds p t s (if s.chosen.contains root then .ok s >>= follow
          else sv.settle (p.withLock (relock p t)) root r s >>= follow) := by
      intro follow hfollow
      cases s.chosen.contains root with
      | true => apply hfollow s h (Nat.le_refl _)
      | false =>
        obtain ⟨u, hu, hrelocked, hle⟩ := h.settle hfinished hr
        rw [hu]
        apply hfollow u hrelocked hle
    apply hchoose
    intro u hrelocked hle
    split
    next lister directory hlister hdirectory =>
      apply (hrelocked.followImports hfinished hdeducible hlister hdirectory hroot).of_le hle
    next => exact ⟨u, rfl, hrelocked, hle⟩

/-- The second solve ends within what is outstanding. -/
theorem run (hfinished : sv.Finished p t) (hdeducible : sv.Deducible p t) (h : Relocked p t s)
    (hbudget : outstanding t s ≤ budget) :
  ∃ u, sv.run (p.withLock (relock p t)) budget s = some (.ok u) ∧ Relocked p t u
  := by
  induction budget generalizing s with
  | zero =>
    have hqueue : s.queue = [] := by
      rw [← List.length_eq_zero_iff]
      rw [outstanding] at hbudget
      omega
    exact ⟨s, run_of_nil hqueue 0, h⟩
  | succ budget ih =>
    cases hqueue : s.queue with
    | nil => exact ⟨s, run_of_nil hqueue _, h⟩
    | cons root queue =>
      have hpopped : Relocked p t { s with queue } := h.of_eq rfl rfl
      obtain ⟨u, hu, hrelocked, hle⟩ := hpopped.step hfinished hdeducible root
      have hless : outstanding t { s with queue } + 1 = outstanding t s := by
        change queue.length + (missing t s).length + 1 = s.queue.length + (missing t s).length
        rw [hqueue, List.length_cons]
        omega
      obtain ⟨u', hrun, hend⟩ := ih hrelocked (by omega)
      use u'
      rw [run_of_cons hqueue hu]
      exact ⟨hrun, hend⟩

end Relocked

/-! ### The start of the second solve -/

namespace Retraces

/-- Requiring projects that were chosen asks for nothing new. -/
theorem requireLocked (h : Retraces p t s) {qs : List LockedProject}
    (hqs : ∀ q ∈ qs, t.chosen.contains q.root = true) :
  Retraces p t (requireLocked { lock with projects := qs } s)
  := by
  induction qs generalizing s with
  | nil => apply h
  | cons q qs ih =>
    obtain ⟨hq, hrest⟩ := List.forall_mem_cons.1 hqs
    simp only [Solver.requireLocked, List.foldl_cons]
    split
    next => apply ih h hrest
    next =>
      obtain ⟨⟨id, v⟩, hv⟩ := SortedMap.contains_iff.1 hq
      apply ih (h.lock hv q.id.source) hrest

/-- Rules that admit what was chosen join. -/
theorem joinAll (h : Retraces p t s) {requiredBy : String}
    {rules : List (ProjectRoot × ProjectRule)}
    (hrules : ∀ e ∈ rules, ∃ id v, t.chosen.get? e.1 = some (id, v) ∧
      (p.manifest.overrides.contains e.1 = false → e.2.constraint.admits v = true)) :
  Retraces p t (joinAll requiredBy rules s)
  := by
  induction rules generalizing s with
  | nil => apply h
  | cons e rules ih =>
    obtain ⟨⟨id, v, hv, hadmits⟩, hrest⟩ := List.forall_mem_cons.1 hrules
    rw [Solver.joinAll, List.foldl_cons, ← Solver.joinAll]
    cases hroot : s.requirements.contains e.1 with
    | false =>
      rw [modify_of_not_contains hroot]
      apply ih h hrest
    | true =>
      have hjoin := h.join requiredBy hv hadmits
      rw [require_of_contains hroot] at hjoin
      apply ih hjoin hrest

end Retraces

/-- Each project of a solution at its version. -/
def versions (solution : List LockedProject) : List (ProjectRoot × Version) :=
  solution.map fun q => (q.root, q.version)

/-- When each package that the lock or the solution records belongs to its project, so do all
required and locked ones. -/
theorem Finished.deducible (h : sv.Finished p t)
    (hdeduces : ∀ r, r ∈ p.lock.projects ∨ r ∈ solution p t → ∀ rel ∈ r.packages,
      sv.sources.deduceRoot (r.root.absolute rel) = .ok r.root) :
  sv.Deducible p t
  := by
  intro root rel hrecorded
  rcases hrecorded with hrequired | ⟨r, hr, rfl, hrel⟩
  · obtain ⟨r, hr, rfl, hpackages⟩ := h.exists_mem (contains_of_mem_packages hrequired)
    apply hdeduces r (.inr hr) rel (hpackages rel hrequired)
  · apply hdeduces r (.inl hr) rel hrel

end Solver
end DepLock
