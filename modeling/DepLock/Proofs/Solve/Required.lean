import DepLock.Proofs.Solve.Solution

/-!
# What is required of a project

A path is required if it is an import to solve, or if it is followed while the queue is worked
through (`Solver.Required`). The packages that are required of a project at the end of a solve are
those that required paths name, no more and no less (`Solver.mem_packages_iff`). So a solution has
each required project once, with these packages, and a project of which nothing is required has the
packages that the lock records for it (`Solver.solution_of_required`).
-/

namespace DepLock.Solver

open SolveState

variable {sv : Solver} {p : SolveProblem} {s t : SolveState} {root dep : ProjectRoot}
  {rel path : String} {paths : List String} {budget : Nat}

/-- Whether a path is that of a package of a project. -/
def Names (sv : Solver) (path : String) (root : ProjectRoot) (rel : String) : Prop :=
  sv.sources.deduceRoot path = .ok root ∧ rel = root.relative path

/-- Whether a path leaves a project when it comes up: a package that is used from its checkout, and
was not followed before, imports the path from another project. -/
def Leaves (sv : Solver) (p : SolveProblem) (s : SolveState) (root : ProjectRoot)
    (path : String) : Prop :=
  (∃ rel ∈ s.usedPackages p.lock root, s.followed.contains (root.absolute rel) = false ∧
    sv.Leads root (root.absolute rel) path) ∧
  p.root.contains path = false ∧ root.contains path = false

/-- Whether a path is followed while the queue of a state is worked through. -/
inductive Followed (sv : Solver) (p : SolveProblem) : SolveState → String → Prop where
  /-- The path leaves the first project of the queue. -/
  | head {s : SolveState} {root : ProjectRoot} {queue : List ProjectRoot} {path : String} :
      s.queue = root :: queue → s.requirements.contains root = true → sv.Leaves p s root path →
      Followed sv p s path
  /-- The path is followed after the first project of the queue came up. -/
  | tail {s t : SolveState} {root : ProjectRoot} {queue : List ProjectRoot} {path : String} :
      s.queue = root :: queue → sv.step p root { s with queue } = .ok t → Followed sv p t path →
      Followed sv p s path

/-- Whether a path is an import to solve, or is followed in the solve. -/
def Required (sv : Solver) (p : SolveProblem) (path : String) : Prop :=
  (path ∈ p.externalImports ∧ p.root.contains path = false)
    ∨ ∃ s, sv.start p = .ok s ∧ sv.Followed p s path

theorem names_iff (h : sv.sources.deduceRoot path = .ok root) :
  sv.Names path dep rel ↔ dep = root ∧ rel = root.relative path
  := by
  rw [Names, h, Except.ok.injEq, eq_comm]
  apply and_congr_right
  rintro rfl
  rfl

/-! ### The start -/

/-- Requiring imports requires the packages that they name. -/
theorem mem_packages_requireImports (h : sv.requireImports p paths s = .ok t) :
  rel ∈ t.packages dep ↔ rel ∈ s.packages dep
    ∨ ∃ path ∈ paths, p.root.contains path = false ∧ sv.Names path dep rel
  := by
  induction paths generalizing s with
  | nil =>
    rw [requireImports] at h
    cases h
    simp
  | cons path paths ih =>
    rw [requireImports] at h
    simp only [List.exists_mem_cons_iff]
    split at h
    next hhome => simp [ih h, hhome]
    next hhome =>
      split at h
      next => cases h
      next root hroot =>
        simp only [ih h, mem_packages_requirePackage, names_iff hroot, Bool.eq_false_iff.2 hhome,
          true_and, or_assoc]

/-- Requiring locked projects requires no packages. -/
theorem packages_requireLocked (lock : Lock) (s : SolveState) :
  (requireLocked lock s).packages root = s.packages root
  := by
  obtain ⟨memo, qs⟩ := lock
  rw [requireLocked]
  induction qs generalizing s with
  | nil => rfl
  | cons q qs ih =>
    rw [List.foldl_cons, ih]
    split
    · rfl
    · apply packages_require_modify
      intro r
      rfl

/-- Rules that join require no packages. -/
theorem packages_joinAll (requiredBy : String) (rules : List (ProjectRoot × ProjectRule))
    (s : SolveState) :
  (joinAll requiredBy rules s).packages root = s.packages root
  := by
  induction rules generalizing s with
  | nil => rfl
  | cons e rules ih =>
    rw [joinAll, List.foldl_cons, ← joinAll, ih]
    apply packages_modify
    intro r
    rfl

/-- At the start, the packages are required that the imports to solve name. -/
theorem mem_packages_start (h : sv.start p = .ok s) :
  rel ∈ s.packages root
    ↔ ∃ path ∈ p.externalImports, p.root.contains path = false ∧ sv.Names path root rel
  := by
  obtain ⟨t, ht, rfl⟩ := start_eq h
  rw [joinConstraints_eq, packages_joinAll, packages_requireLocked, mem_packages_requireImports ht]
  simp [packages]

/-! ### Steps -/

/-- What leaves a project depends on what is required of it and on what was followed. -/
theorem leaves_congr (hpackages : t.packages root = s.packages root)
    (hfollowed : t.followed = s.followed) :
  sv.Leaves p t root path ↔ sv.Leaves p s root path
  := by
  rw [Leaves, Leaves, usedPackages_congr hpackages, hfollowed]

/-- Requiring the imports of a checkout requires the packages that they name. -/
theorem mem_packages_requireFrom (h : sv.requireFrom p root paths s = .ok t) :
  rel ∈ t.packages dep ↔ rel ∈ s.packages dep ∨ ∃ path ∈ paths, p.root.contains path = false ∧
    root.contains path = false ∧ sv.Names path dep rel
  := by
  induction paths generalizing s with
  | nil =>
    rw [requireFrom] at h
    cases h
    simp
  | cons path paths ih =>
    rw [requireFrom] at h
    simp only [List.exists_mem_cons_iff]
    split at h
    next hown =>
      have hnone : ¬ (p.root.contains path = false ∧ root.contains path = false
          ∧ sv.Names path dep rel) := by
        rintro ⟨hhome, hroot, -⟩
        simp [hhome, hroot] at hown
      rw [ih h, iff_false_intro hnone, false_or]
    next hown =>
      rw [Bool.or_eq_true, not_or, Bool.not_eq_true, Bool.not_eq_true] at hown
      split at h
      next => cases h
      next root' hroot' =>
        have huse : rel ∈ t.packages dep ↔ rel ∈ (s.use root' (root'.relative path)).packages dep
            ∨ _ := ih h
        simp only [huse, packages_use, ← packages_requirePackage, mem_packages_requirePackage,
          names_iff hroot', hown, true_and, or_assoc]

/-- Following the imports of a checkout requires the packages that leaving paths name. -/
theorem mem_packages_followImports {lister : PackageLister} {directory : String}
    (hlister : sv.lister = some lister) (hdirectory : sv.workspace.directory? root = some directory)
    (h : sv.followImports p lister root directory s = .ok t) :
  rel ∈ t.packages dep
    ↔ rel ∈ s.packages dep ∨ ∃ path, sv.Leaves p s root path ∧ sv.Names path dep rel
  := by
  have hnewly := mem_newlyUsed root (s.usedPackages p.lock root) s.followed
  simp only [followImports] at h
  have hrequired : rel ∈ t.packages dep ↔ _ := mem_packages_requireFrom h
  rw [hrequired]
  apply or_congr Iff.rfl
  apply exists_congr
  intro path
  rw [Leaves, and_assoc, and_assoc]
  apply and_congr_left
  intro _
  apply (mem_importsOf_listed hlister hdirectory).trans
  simp only [(hnewly _).1, List.mem_map, and_assoc, exists_exists_and_eq_and]

/-- Where nothing is listed, nothing leaves. -/
theorem exists_of_leaves (h : sv.Leaves p s root path) :
  ∃ lister directory, sv.lister = some lister ∧ sv.workspace.directory? root = some directory
  := by
  obtain ⟨⟨_, -, -, lister, directory, -, -, hlister, hdirectory, -⟩, -⟩ := h
  exact ⟨lister, directory, hlister, hdirectory⟩

/-- The work on a checkout, if there is one, requires the packages that leaving paths name. -/
theorem mem_packages_follow (h : sv.follow p root s = .ok t) :
  rel ∈ t.packages dep
    ↔ rel ∈ s.packages dep ∨ ∃ path, sv.Leaves p s root path ∧ sv.Names path dep rel
  := by
  rw [follow] at h
  split at h
  next lister directory hlister hdirectory =>
    apply mem_packages_followImports hlister hdirectory h
  next hnone =>
    cases h
    rw [or_iff_left]
    rintro ⟨path, hleaves, -⟩
    obtain ⟨lister, directory, hlister, hdirectory⟩ := exists_of_leaves hleaves
    apply hnone lister directory hlister hdirectory

/-- Rules of a dependency require no packages. -/
theorem packages_joinRules {rules : List (ProjectRoot × ProjectRule)}
    (h : joinRules p root rules s = .ok t) :
  t.packages dep = s.packages dep
  := by
  induction rules generalizing s with
  | nil =>
    cases h
    rfl
  | cons e rules ih =>
    obtain ⟨dep', rule⟩ := e
    rw [joinRules] at h
    split at h
    · apply ih h
    · split at h
      · split at h
        · apply ih h
        · cases h
      · rw [ih h]
        apply packages_require_modify
        intro r
        rfl

/-- Settling a project requires no packages. -/
theorem packages_settle {r : Requirement} (h : sv.settle p root r s = .ok t) :
  t.packages dep = s.packages dep
  := by
  simp only [settle] at h
  split at h
  · cases h
  · split at h
    · rw [followManifest] at h
      split at h
      · cases h
        rfl
      · apply packages_joinRules h
    · cases h
      rfl

/-- When a required project comes up, the packages are required that leaving paths name. -/
theorem mem_packages_step (h : sv.step p root s = .ok t) :
  rel ∈ t.packages dep ↔ rel ∈ s.packages dep
    ∨ ∃ path, (s.requirements.contains root = true ∧ sv.Leaves p s root path)
      ∧ sv.Names path dep rel
  := by
  rcases step_cases h with ⟨hnone, rfl⟩ | ⟨r, u, hr, hfollow, hsettled⟩
  · simp [SortedMap.contains_eq_false_iff.2 hnone]
  · simp only [SortedMap.contains_of_get? hr, true_and]
    rcases hsettled with ⟨-, rfl⟩ | ⟨-, hsettle⟩
    · apply mem_packages_follow hfollow
    · obtain ⟨v, -, hmoves, -⟩ := settle_spec hsettle
      have hfollowed : u.followed = s.followed := hmoves.grows.followed
      simp only [mem_packages_follow hfollow, packages_settle hsettle,
        leaves_congr (packages_settle hsettle) hfollowed]

/-! ### Runs -/

/-- What is followed from a state whose first project comes up. -/
theorem followed_iff {queue : List ProjectRoot} (hqueue : s.queue = root :: queue)
    (hstep : sv.step p root { s with queue } = .ok t) :
  sv.Followed p s path
    ↔ (s.requirements.contains root = true ∧ sv.Leaves p s root path) ∨ sv.Followed p t path
  := by
  constructor
  · intro h
    cases h with
    | head hqueue' hroot hleaves =>
      rw [hqueue] at hqueue'
      cases hqueue'
      apply Or.inl ⟨hroot, hleaves⟩
    | tail hqueue' hstep' hfollowed =>
      rw [hqueue] at hqueue'
      cases hqueue'
      rw [hstep] at hstep'
      cases hstep'
      apply Or.inr hfollowed
  · rintro (⟨hroot, hleaves⟩ | hfollowed)
    · apply Followed.head hqueue hroot hleaves
    · apply Followed.tail hqueue hstep hfollowed

theorem not_followed_of_nil (h : s.queue = []) :
  ¬ sv.Followed p s path
  := by
  intro hfollowed
  cases hfollowed with
  | head hqueue _ _ => simp [h] at hqueue
  | tail hqueue _ _ => simp [h] at hqueue

/-- In a run, the packages are required that followed paths name. -/
theorem mem_packages_run (h : sv.run p budget s = some (.ok t)) :
  rel ∈ t.packages root
    ↔ rel ∈ s.packages root ∨ ∃ path, sv.Followed p s path ∧ sv.Names path root rel
  := by
  replace h := runs_of_run h
  induction h with
  | done hqueue => simp [not_followed_of_nil hqueue]
  | @step s t u root' queue hqueue hu _ ih =>
    have hstep : rel ∈ u.packages root ↔ rel ∈ s.packages root ∨ ∃ path,
        (s.requirements.contains root' = true ∧ sv.Leaves p s root' path)
          ∧ sv.Names path root rel := (mem_packages_step hu).trans Iff.rfl
    simp only [ih, hstep, followed_iff hqueue hu, or_and_right, exists_or, or_assoc]

/-- At the end of a solve, exactly the packages are required that required paths name. -/
theorem mem_packages_iff (hs : sv.start p = .ok s) (ht : sv.run p budget s = some (.ok t)) :
  rel ∈ t.packages root ↔ ∃ path, sv.Required p path ∧ sv.Names path root rel
  := by
  have hrequired (path : String) : sv.Required p path
      ↔ (path ∈ p.externalImports ∧ p.root.contains path = false) ∨ sv.Followed p s path := by
    rw [Required, hs]
    simp
  simp only [mem_packages_run ht, mem_packages_start hs, hrequired, or_and_right, exists_or,
    and_assoc]

/-- What is used from a project at the end of a solve: what required paths name, or if none of them
belongs to the project, what the lock records. -/
theorem mem_usedPackages_iff {root : ProjectRoot} (hs : sv.start p = .ok s)
    (ht : sv.run p budget s = some (.ok t)) :
  rel ∈ t.usedPackages p.lock root ↔
    (∃ path, sv.Required p path ∧ sv.Names path root rel) ∨
      ((∀ path, sv.Required p path → sv.sources.deduceRoot path ≠ .ok root) ∧
        ∃ e, p.lock.get? root = some e ∧ rel ∈ e.packages)
  := by
  have hnil : t.packages root = []
      ↔ ∀ path, sv.Required p path → sv.sources.deduceRoot path ≠ .ok root := by
    simp only [List.eq_nil_iff_forall_not_mem, mem_packages_iff hs ht, Names]
    constructor
    · intro hnone path hpath hroot
      apply hnone _ ⟨path, hpath, hroot, rfl⟩
    · rintro hnone _ ⟨path, hpath, hroot, -⟩
      apply hnone path hpath hroot
  rw [mem_usedPackages, mem_packages_iff hs ht, hnil]

/-! ### Solutions -/

variable {q : LockedProject} {solution : List LockedProject} {log : Log}

/-- The packages of a project that a required path names are those that required paths name. -/
theorem Finished.mem_packages_of_required (h : sv.Finished p t)
    (hpackages : ∀ rel, rel ∈ t.packages q.root
      ↔ ∃ path, sv.Required p path ∧ sv.Names path q.root rel)
    (hq : q ∈ Solver.solution p t) (hpath : sv.Required p path)
    (hroot : sv.sources.deduceRoot path = .ok q.root) :
  rel ∈ q.packages ↔ ∃ path, sv.Required p path ∧ sv.Names path q.root rel
  := by
  have hmem := (hpackages (q.root.relative path)).2 ⟨path, hpath, hroot, rfl⟩
  rw [h.packages_of_mem hq, mem_sortDedup, mem_usedPackages, hpackages]
  apply or_iff_left
  rintro ⟨hnil, -⟩
  simp [hnil] at hmem

/-- A project that no required path names has the packages that the lock records. -/
theorem Finished.packages_of_not_required
    (hlock : ∀ e ∈ p.lock.projects, sortDedup e.packages = e.packages) (h : sv.Finished p t)
    (hq : q ∈ Solver.solution p t) (hnil : t.packages q.root = []) :
  q.packages = ((p.lock.get? q.root).map (·.packages)).getD []
  := by
  rw [h.packages_of_mem hq, usedPackages, hnil]
  cases he : p.lock.get? q.root with
  | none => simp [sortDedup, dedupAdjacent]
  | some e => apply hlock e (Lock.mem_of_get? he).1

/-- A solution has each project once, among them those that the imports to solve name and those of
the lock. A project that required paths name has exactly these packages, and any other project has
those that the lock records for it, if it is locked at all. -/
theorem solution_of_required
    (hlock : ∀ e ∈ p.lock.projects, sortDedup e.packages = e.packages)
    (h : sv.solve p budget = some ⟨.ok solution, log⟩) :
  solution.Pairwise (fun q r => compare q.root r.root = .lt) ∧
  (∀ path ∈ p.externalImports, p.root.contains path = false →
    ∃ q ∈ solution, sv.sources.deduceRoot path = .ok q.root ∧
      q.root.relative path ∈ q.packages) ∧
  (∀ e ∈ p.lock.projects, ∃ q ∈ solution, q.root = e.root) ∧
  (∀ q ∈ solution, ∀ path, sv.Required p path → sv.sources.deduceRoot path = .ok q.root →
    ∀ rel, rel ∈ q.packages ↔ ∃ path, sv.Required p path ∧ sv.Names path q.root rel) ∧
  ∀ q ∈ solution, (∀ path, sv.Required p path → sv.sources.deduceRoot path ≠ .ok q.root) →
    q.packages = ((p.lock.get? q.root).map (·.packages)).getD []
  := by
  obtain ⟨s, t, hs, hrun, hextends, hfinished, rfl⟩ := exists_run h
  obtain ⟨-, hcovers, hinitial⟩ := start_spec hs
  refine ⟨hfinished.solution_increasing, ?_, ?_, ?_, ?_⟩
  · intro path hpath hhome
    obtain ⟨root, hroot, hrel⟩ := (hcovers path hpath hhome).mono hextends
    obtain ⟨q, hq, rfl, hpackages⟩ := hfinished.exists_mem (contains_of_mem_packages hrel)
    exact ⟨q, hq, hroot, hpackages _ hrel⟩
  · intro e he
    obtain ⟨hcontains, -⟩ := hinitial e.root (.inr (Lock.contains_of_mem he))
    obtain ⟨q, hq, hroot, -⟩ := hfinished.exists_mem (hextends.contains hcontains)
    exact ⟨q, hq, hroot⟩
  · intro q hq path hpath hroot rel
    apply hfinished.mem_packages_of_required (fun rel => mem_packages_iff hs hrun) hq hpath hroot
  · intro q hq hnone
    apply hfinished.packages_of_not_required hlock hq
    apply List.eq_nil_iff_forall_not_mem.2
    intro rel hrel
    obtain ⟨path, hpath, hroot, -⟩ := (mem_packages_iff hs hrun).1 hrel
    apply hnone path hpath hroot

namespace Sample

def gamma : ProjectRoot := ⟨"z.io/c", by decide⟩

/-- The problem with a locked project that nothing imports. -/
def kept : SolveProblem :=
  { problem with
    lock := { projects := [⟨⟨alpha, none⟩, new, ["."]⟩, ⟨⟨gamma, none⟩, old, ["util"]⟩] } }

/-- The projects that are chosen then. -/
def chosenKept : List LockedProject := chosen ++ [⟨⟨gamma, none⟩, old, ["util"]⟩]

def begunKept : SolveState where
  requirements := ⟨[(alpha, onAlpha), (gamma, {})], by decide +kernel⟩
  queue := [alpha, gamma]

theorem start_kept :
  solver.start kept = .ok begunKept
  := by
  have himports : kept.externalImports = ["x.io/a"] := externalImports_problem
  rw [start, himports]
  rfl

/-- The state in which the checkout has been dealt with. -/
def followedKept : SolveState :=
  { followed with
    requirements := ⟨[(alpha, onAlpha), (beta, onBeta), (gamma, {})], by decide +kernel⟩
    queue := [gamma, beta] }

theorem step_alpha_kept :
  solver.step kept alpha { begunKept with queue := [gamma] } = .ok followedKept
  := by
  have himports : importsOf tree.importReach ["x.io/a"] = ["y.io/b/lib"] := by cbv
  change solver.requireFrom kept alpha (importsOf tree.importReach ["x.io/a"]) _ = _
  rw [himports]
  rfl

/-- The state in which the locked project has been dealt with. -/
def settledKept : SolveState :=
  { followedKept with
    queue := [beta], chosen := followedKept.chosen.insert gamma (⟨gamma, none⟩, old) }

theorem step_gamma :
  solver.step kept gamma { followedKept with queue := [beta] } = .ok settledKept
  := by
  have hselect : solver.sources.select ⟨gamma, none⟩ [] kept.lock = .ok old := by cbv
  apply step_of_absent (r := {}) rfl rfl rfl hselect

theorem step_beta_kept :
  solver.step kept beta { settledKept with queue := [] } = .ok
    { settledKept with queue := [], chosen := settledKept.chosen.insert beta (⟨beta, none⟩, new) }
  := by
  have hselect : solver.sources.select ⟨beta, none⟩ onBeta.demands kept.lock = .ok new := by cbv
  apply step_of_absent (r := onBeta) rfl rfl rfl hselect

theorem solve_kept :
  solver.solve kept 3 = some ⟨.ok chosenKept, []⟩
  := by
  rw [solve, start_kept]
  dsimp only
  rw [run_of_cons rfl step_alpha_kept, run_of_cons rfl step_gamma, run_of_cons rfl step_beta_kept,
    run_of_nil rfl]
  cbv

end Sample

/-- The locked project is kept with its packages. -/
theorem solution_of_required_sample :
  Sample.solver.solve Sample.kept 3 = some ⟨.ok Sample.chosenKept, []⟩ ∧
    (∀ e ∈ Sample.kept.lock.projects, sortDedup e.packages = e.packages) ∧
    Sample.chosenKept.Pairwise (fun q r => compare q.root r.root = .lt) ∧
    (∃ q ∈ Sample.chosenKept, q.root = Sample.gamma) ∧
    ∀ q ∈ Sample.chosenKept, q.root = Sample.gamma → q.packages = ["util"]
  := by
  have hlock : ∀ e ∈ Sample.kept.lock.projects, sortDedup e.packages = e.packages := by
    intro e he
    rcases List.mem_pair.1 he with rfl | rfl
    · cbv
    · cbv
  obtain ⟨hincreasing, -, hlocked, -, hpackages⟩ := solution_of_required hlock Sample.solve_kept
  use Sample.solve_kept, hlock, hincreasing
  constructor
  · apply hlocked ⟨⟨Sample.gamma, none⟩, Sample.old, ["util"]⟩
    exact List.mem_cons_of_mem _ List.mem_cons_self
  · intro q hq hroot
    rw [hpackages q hq, hroot]
    · rfl
    · intro path _ hpath
      have halpha : Sample.alpha ≠ Sample.gamma := by decide
      have hbeta : Sample.beta ≠ Sample.gamma := by decide
      simp only [hroot, Sample.solver] at hpath
      split at hpath
      · apply halpha (Except.ok.inj hpath)
      · split at hpath
        · apply hbeta (Except.ok.inj hpath)
        · cases hpath

end DepLock.Solver
