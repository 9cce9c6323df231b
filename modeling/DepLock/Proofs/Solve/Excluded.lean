import DepLock.Proofs.Package.Reach
import DepLock.Proofs.Solve.Required

/-!
# What stays out of a solution

The project that is solved is required through the lock only: imports and rules that lead back to it
are passed over (`Solver.home_mem_iff`). What the manifest ignores is left out of the imports to
solve, but neither out of the imports that are followed out of checkouts nor out of the packages that
the lock records (`Solver.mem_packages_of_ignored_iff`).
-/

namespace DepLock

/-- An import to solve is required by the manifest, or the manifest does not ignore it. -/
theorem SolveProblem.required_or_not_ignored {p : SolveProblem} {path : String}
    (h : path ∈ p.externalImports) :
  path ∈ p.manifest.required ∨ p.manifest.ignores path = false
  := by
  rw [externalImports, mem_sortDedup, List.mem_append] at h
  rcases h with himport | hrequired
  · obtain ⟨⟨start, e, he, hpath⟩, -⟩ := ReachMap.mem_externalImports.1 himport
    apply Or.inr (PackageTree.not_ignored_of_reach he hpath)
  · apply Or.inl hrequired

namespace Solver

open SolveState

variable {sv : Solver} {p : SolveProblem} {s t : SolveState} {q : LockedProject} {rel : String}
  {budget : Nat} {solution : List LockedProject} {log : Log}

/-! ### The project itself -/

/-- Throughout a solve, the project that is solved is required only if it is locked, for a source
manager whose roots contain the paths that they are deduced from. -/
theorem persists_home
    (hdeduces : ∀ path root, sv.sources.deduceRoot path = .ok root → root.contains path = true) :
  sv.Persists p fun s => s.requirements.contains p.root = true → p.lock.contains p.root = true
  where
  move := by
    intro s t hmove h hroot
    cases hmove with
    | tell => apply h hroot
    | use _ hhome hdep =>
      rw [requirements_use, requirePackage, contains_require_modify, Bool.or_eq_true,
        decide_eq_true_eq] at hroot
      rcases hroot with rfl | hroot
      · rw [hdeduces _ _ hdep] at hhome
        cases hhome
      · apply h hroot
    | lock hq _ =>
      rw [contains_require_modify, Bool.or_eq_true, decide_eq_true_eq] at hroot
      rcases hroot with heq | hroot
      · rw [heq]
        apply Lock.contains_of_mem hq
      · apply h hroot
    | constrain _ hcontains _ =>
      rw [contains_require_modify, Bool.or_eq_true, decide_eq_true_eq] at hroot
      rcases hroot with rfl | hroot
      · apply h hcontains
      · apply h hroot
    | demand _ _ hother _ _ =>
      rw [contains_require_modify, Bool.or_eq_true, decide_eq_true_eq] at hroot
      rcases hroot with heq | hroot
      · apply absurd heq.symm hother
      · apply h hroot
  of_eq := by
    intro s t hrequirements _ h hroot
    rw [hrequirements] at hroot
    apply h hroot

/-- The project that is solved is in its own solution exactly if the lock has an entry for it. -/
theorem home_mem_iff
    (hdeduces : ∀ path root, sv.sources.deduceRoot path = .ok root → root.contains path = true)
    (h : sv.solve p budget = some ⟨.ok solution, log⟩) :
  (∃ q ∈ solution, q.root = p.root) ↔ p.lock.contains p.root = true
  := by
  obtain ⟨s, t, hs, hrun, hextends, hfinished, rfl⟩ := exists_run h
  obtain ⟨hmoves, -, hinitial⟩ := start_spec hs
  constructor
  · rintro ⟨q, hq, hroot⟩
    obtain ⟨-, r, hr, -⟩ := hfinished.of_mem hq
    apply (persists_home hdeduces).run hrun
    · apply (persists_home hdeduces).moves hmoves
      simp
    · rw [← hroot]
      apply SortedMap.contains_of_get? hr
  · intro hlocked
    obtain ⟨hcontains, -⟩ := hinitial p.root (.inr hlocked)
    obtain ⟨q, hq, hroot, -⟩ := hfinished.exists_mem (hextends.contains hcontains)
    exact ⟨q, hq, hroot⟩

namespace Sample

theorem contains_of_deduceRoot {path : String} {root : ProjectRoot}
    (h : solver.sources.deduceRoot path = .ok root) :
  root.contains path = true
  := by
  simp only [solver] at h
  split at h
  next halpha =>
    cases h
    apply halpha
  next =>
    split at h
    next hbeta =>
      cases h
      apply hbeta
    next => cases h

/-- The root of the project that is solved. -/
def me : ProjectRoot := ⟨"me.io/app", by decide⟩

/-- The problem of a project without imports whose lock has an entry for the project itself. -/
def lockedHome : SolveProblem where
  tree := ⟨"me.io/app", ∅⟩
  manifest := {}
  lock := { projects := [⟨⟨me, none⟩, old, ["util"]⟩] }

theorem start_lockedHome :
  solver.start lockedHome = .ok { requirements := ⟨[(me, {})], by simp⟩, queue := [me] }
  := by
  have himports : lockedHome.externalImports = [] := by cbv
  rw [start, himports]
  rfl

theorem solve_lockedHome :
  solver.solve lockedHome 1 = some ⟨.ok [⟨⟨me, none⟩, old, ["util"]⟩], []⟩
  := by
  have hselect : solver.sources.select ⟨me, none⟩ [] lockedHome.lock = .ok old := by cbv
  rw [solve, start_lockedHome]
  dsimp only
  rw [run_of_cons rfl (step_of_absent (r := {}) rfl rfl rfl hselect), run_of_nil rfl]
  cbv

end Sample

/-- The lock has no entry for the project that is solved, so it is not in its own solution. -/
theorem home_mem_iff_sample :
  (∀ path root, Sample.solver.sources.deduceRoot path = .ok root → root.contains path = true) ∧
    Sample.solver.solve Sample.problem 2 = some ⟨.ok Sample.chosen, []⟩ ∧
    Sample.problem.lock.contains Sample.problem.root = false ∧
    ¬ ∃ q ∈ Sample.chosen, q.root = Sample.problem.root
  := by
  have hdeduces : ∀ path root, Sample.solver.sources.deduceRoot path = .ok root →
      root.contains path = true := fun _ _ => Sample.contains_of_deduceRoot
  use hdeduces, Sample.solve_problem, rfl
  rw [home_mem_iff hdeduces Sample.solve_problem]
  intro hlocked
  cases hlocked

/-- A project that is locked for itself is its own dependency. -/
theorem home_mem_of_locked :
  ¬ ∀ (sv : Solver) (p : SolveProblem) (budget : Nat) (solution : List LockedProject) (log : Log),
    (∀ path root, sv.sources.deduceRoot path = .ok root → root.contains path = true ∧
      ¬ (root ≠ p.root ∧ root.contains p.root.text = true)) →
    sv.solve p budget = some ⟨.ok solution, log⟩ → ∀ q ∈ solution, q.root ≠ p.root
  := by
  intro h
  apply h _ _ _ _ _ _ Sample.solve_lockedHome _ List.mem_cons_self rfl
  intro path root hroot
  use Sample.contains_of_deduceRoot hroot
  rintro ⟨-, hprefix⟩
  simp only [Sample.solver] at hroot
  split at hroot
  · cases hroot
    revert hprefix
    decide
  · split at hroot
    · cases hroot
      revert hprefix
      decide
    · cases hroot

/-! ### Ignored packages -/

/-- A package that the manifest ignores and does not require is in a solution exactly if an import
names it that is followed out of a checkout, or if no required path belongs to its project and the
lock records it, or if an import to solve names it that is not its path. -/
theorem mem_packages_of_ignored_iff (h : sv.solve p budget = some ⟨.ok solution, log⟩)
    (hq : q ∈ solution) (hignored : p.manifest.ignores (q.root.absolute rel) = true)
    (hrequired : q.root.absolute rel ∉ p.manifest.required) :
  rel ∈ q.packages ↔
    (∃ s path, sv.start p = .ok s ∧ sv.Followed p s path ∧ sv.Names path q.root rel) ∨
    ((∀ path, sv.Required p path → sv.sources.deduceRoot path ≠ .ok q.root) ∧
      ∃ e, p.lock.get? q.root = some e ∧ rel ∈ e.packages) ∨
    ∃ path ∈ p.externalImports, p.root.contains path = false ∧ sv.Names path q.root rel ∧
      q.root.absolute rel ≠ path
  := by
  obtain ⟨s, t, hs, hrun, -, hfinished, rfl⟩ := exists_run h
  have hnot : ∀ path ∈ p.externalImports, q.root.absolute rel ≠ path := by
    rintro path hpath rfl
    rcases SolveProblem.required_or_not_ignored hpath with hpath | hpath
    · apply hrequired hpath
    · rw [hignored] at hpath
      cases hpath
  rw [hfinished.packages_of_mem hq, mem_sortDedup, mem_usedPackages_iff hs hrun]
  constructor
  · rintro (⟨path, ⟨hdirect, hhome⟩ | ⟨s', hs', hfollowed⟩, hnames⟩ | hlocked)
    · exact .inr (.inr ⟨path, hdirect, hhome, hnames, hnot path hdirect⟩)
    · exact .inl ⟨s', path, hs', hfollowed, hnames⟩
    · exact .inr (.inl hlocked)
  · rintro (⟨s', path, hs', hfollowed, hnames⟩ | hlocked | ⟨path, hdirect, hhome, hnames, -⟩)
    · exact .inl ⟨path, .inr ⟨s', hs', hfollowed⟩, hnames⟩
    · exact .inr hlocked
    · exact .inl ⟨path, .inl ⟨hdirect, hhome⟩, hnames⟩

namespace Sample

/-- The problem of a project that imports nothing, whose manifest requires `x.io/a` and ignores
whatever belongs to `y.io/b`. -/
def ignoring : SolveProblem where
  tree := ⟨"me.io/app", ∅⟩
  manifest := { problem.manifest with ignored := ["y.io/b*"], required := ["x.io/a"] }
  lock := problem.lock

theorem externalImports_ignoring :
  ignoring.externalImports = ["x.io/a"]
  := by cbv

theorem start_ignoring :
  solver.start ignoring = .ok begun
  := by
  rw [start, externalImports_ignoring]
  rfl

theorem step_alpha_ignoring :
  solver.step ignoring alpha { begun with queue := [] } = .ok followed
  := by
  have himports : importsOf tree.importReach ["x.io/a"] = ["y.io/b/lib"] := by cbv
  change solver.requireFrom ignoring alpha (importsOf tree.importReach ["x.io/a"]) _ = _
  rw [himports]
  rfl

/-- What the checkout imports is chosen although it is ignored. -/
theorem solve_ignoring :
  solver.solve ignoring 2 = some ⟨.ok chosen, []⟩
  := by
  have hselect : solver.sources.select ⟨beta, none⟩ onBeta.demands ignoring.lock = .ok new := by
    cbv
  rw [solve, start_ignoring]
  dsimp only
  rw [run_of_cons rfl step_alpha_ignoring,
    run_of_cons rfl (step_of_absent (r := onBeta) rfl rfl rfl hselect), run_of_nil rfl]
  cbv

end Sample

theorem mem_packages_of_ignored_iff_sample :
  Sample.solver.solve Sample.ignoring 2 = some ⟨.ok Sample.chosen, []⟩ ∧
    ⟨⟨Sample.beta, none⟩, Sample.new, ["lib"]⟩ ∈ Sample.chosen ∧
    Sample.ignoring.manifest.ignores (Sample.beta.absolute "lib") = true ∧
    Sample.beta.absolute "lib" ∉ Sample.ignoring.manifest.required ∧
    ∃ s path, Sample.solver.start Sample.ignoring = .ok s ∧
      Sample.solver.Followed Sample.ignoring s path ∧ Sample.solver.Names path Sample.beta "lib"
  := by
  have hq : ⟨⟨Sample.beta, none⟩, Sample.new, ["lib"]⟩ ∈ Sample.chosen := by simp [Sample.chosen]
  have hignored : Sample.ignoring.manifest.ignores (Sample.beta.absolute "lib") = true := by
    decide
  have hrequired : Sample.beta.absolute "lib" ∉ Sample.ignoring.manifest.required := by decide
  use Sample.solve_ignoring, hq, hignored, hrequired
  rcases (mem_packages_of_ignored_iff Sample.solve_ignoring hq hignored hrequired).1
    List.mem_cons_self with hfollowed | ⟨-, e, he, -⟩ | ⟨path, hpath, -, hnames, -⟩
  · apply hfollowed
  · cases he
  · rw [Sample.externalImports_ignoring, List.mem_singleton] at hpath
    subst hpath
    have hother : Sample.alpha ≠ Sample.beta := by decide
    apply absurd (Except.ok.inj hnames.1) hother

/-- An ignored package that nothing requires can be in a solution. -/
theorem ignored_mem_packages :
  ¬ ∀ (sv : Solver) (p : SolveProblem) (budget : Nat) (solution : List LockedProject) (log : Log),
    sv.solve p budget = some ⟨.ok solution, log⟩ → ∀ q ∈ solution, ∀ rel ∈ q.packages,
      p.manifest.ignores (q.root.absolute rel) = true → q.root.absolute rel ∈ p.manifest.required
  := by
  intro h
  have hq : ⟨⟨Sample.beta, none⟩, Sample.new, ["lib"]⟩ ∈ Sample.chosen := by simp [Sample.chosen]
  have hrequired := h _ _ _ _ _ Sample.solve_ignoring _ hq "lib" List.mem_cons_self (by decide)
  revert hrequired
  decide

end Solver
end DepLock
