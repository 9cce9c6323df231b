import DepLock.Proofs.Solve.Invariant
import Mathlib.Data.List.Pairwise
import Mathlib.Data.List.Permutation

/-!
# What a solution contains

A state in which nothing waits is `Finished`. Its solution has one project for each requirement, at
a version that meets the demands on the project, with the packages used from it, and the packages
that are imported from its checkout are required in turn.
-/

namespace DepLock.Solver

open SolveState

variable {sv : Solver} {p : SolveProblem} {s t : SolveState} {root dep : ProjectRoot}
  {q : LockedProject} {budget : Nat} {solution : List LockedProject} {log : Log}

/-- Whether the invariants of a solve hold and the queue is empty. -/
structure Finished (sv : Solver) (p : SolveProblem) (s : SolveState) : Prop where
  consistent : sv.Consistent p [] s
  complete : sv.Complete p s
  queue : s.queue = []

/-- A solution is read off a finished state in which the run from the start ends. -/
theorem exists_run (h : sv.solve p budget = some ⟨.ok solution, log⟩) :
  ∃ s t, sv.start p = .ok s ∧ sv.run p budget s = some (.ok t) ∧ Extends s t ∧
    sv.Finished p t ∧ solution = Solver.solution p t
  := by
  obtain ⟨s, t, hs, hrun, hextends, hconsistent, hcomplete, hqueue, hsolution⟩ := solve_spec h
  exact ⟨s, t, hs, hrun, hextends, ⟨hconsistent, hcomplete, hqueue⟩, hsolution⟩

/-- A solution is read off a finished state that extends the start. -/
theorem exists_finished (h : sv.solve p budget = some ⟨.ok solution, log⟩) :
  ∃ s t, sv.start p = .ok s ∧ Extends s t ∧ sv.Finished p t ∧ solution = Solver.solution p t
  := by
  obtain ⟨s, t, hs, -, hextends, hfinished⟩ := exists_run h
  exact ⟨s, t, hs, hextends, hfinished⟩

theorem root_effective (p : SolveProblem) (root : ProjectRoot) (r : Requirement) :
  (effective p root r).1.root = root
  := by
  unfold effective
  split <;> rfl

/-- The demands that count for a project which is not overridden are those that joined. -/
theorem demands_effective (h : p.manifest.overrides.contains root = false) (r : Requirement) :
  (effective p root r).2 = r.demands
  := by
  rw [effective, SortedMap.contains_eq_false_iff.1 h]

/-- The demand that counts for an overridden project is the override's. -/
theorem mem_demands_effective {o : ProjectRule} (h : p.manifest.overrides.get? root = some o)
    (hany : o.constraint.isAny = false) (r : Requirement) :
  ⟨p.root.text, o.constraint⟩ ∈ (effective p root r).2
  := by
  simp [effective, h, hany]

namespace Finished

theorem chosen_of_contains (h : sv.Finished p t) (hroot : t.requirements.contains root = true) :
  t.chosen.contains root = true
  := by
  rcases h.consistent.waiting root hroot with hchosen | hwaiting
  · apply hchosen
  · simp [h.queue] at hwaiting

theorem root_of_chosen {id : ProjectId} {v : Version} (h : sv.Finished p t)
    (hv : t.chosen.get? root = some (id, v)) :
  id.root = root
  := by
  obtain ⟨r, -, rfl, -⟩ := h.consistent.selected root id v hv
  apply root_effective

/-- The roots of a solution increase. -/
theorem solution_increasing (h : sv.Finished p t) :
  (Solver.solution p t).Pairwise fun q r => compare q.root r.root = .lt
  := by
  have hroot : ∀ e ∈ t.chosen.toList, e.2.1.root = e.1 := by
    intro e he
    apply h.root_of_chosen (SortedMap.get?_eq_some_iff.2 he)
  rw [Solver.solution, List.pairwise_map]
  apply t.chosen.increasing.imp_of_mem
  intro e e' he he' hlt
  rw [← hroot e he, ← hroot e' he'] at hlt
  apply hlt

/-- The solution has each project once. -/
theorem solution_distinct (h : sv.Finished p t) :
  (Solver.solution p t).Pairwise fun q r => q.root ≠ r.root
  := by
  apply h.solution_increasing.imp
  intro q r hlt heq
  simp [heq] at hlt

/-- A project of a solution is determined by its root. -/
theorem eq_of_mem {r : LockedProject} (h : sv.Finished p t) (hq : q ∈ Solver.solution p t)
    (hr : r ∈ Solver.solution p t) (hroot : q.root = r.root) :
  q = r
  := by
  have : Std.Symm fun q r : LockedProject => q.root ≠ r.root := ⟨fun _ _ hne => hne.symm⟩
  by_contra hne
  apply List.Pairwise.forall h.solution_distinct hq hr hne hroot

/-- What a project of a solution comes from. -/
theorem of_mem (h : sv.Finished p t) (hq : q ∈ Solver.solution p t) :
  t.chosen.get? q.root = some (q.id, q.version) ∧
    ∃ r, t.requirements.get? q.root = some r ∧ q.id = (effective p q.root r).1 ∧
      q.version.meets (effective p q.root r).2 = true ∧
      ∀ rel, rel ∈ q.packages ↔ rel ∈ t.usedPackages p.lock q.root
  := by
  obtain ⟨⟨root, id, v⟩, hmem, rfl⟩ := List.mem_map.1 hq
  have hchosen := SortedMap.get?_eq_some_iff.2 hmem
  obtain ⟨r, hr, rfl, hselect⟩ := h.consistent.selected root id v hchosen
  have hroot : (LockedProject.of (effective p root r).1 v (t.usedPackages p.lock root)).root
      = root := root_effective p root r
  rw [hroot]
  refine ⟨hchosen, r, hr, rfl, SourceManager.meets_of_select hselect, ?_⟩
  intro rel
  apply mem_sortDedup

/-- The packages of a project of a solution are those that are used from it. -/
theorem packages_of_mem (h : sv.Finished p t) (hq : q ∈ Solver.solution p t) :
  q.packages = sortDedup (t.usedPackages p.lock q.root)
  := by
  obtain ⟨⟨root, id, v⟩, hmem, rfl⟩ := List.mem_map.1 hq
  have hroot : (LockedProject.of id v (t.usedPackages p.lock root)).root = root :=
    h.root_of_chosen (SortedMap.get?_eq_some_iff.2 hmem)
  rw [hroot]
  rfl

/-- Each required project is in the solution, with all packages that are required of it. -/
theorem exists_mem (h : sv.Finished p t) (hroot : t.requirements.contains root = true) :
  ∃ q ∈ Solver.solution p t, q.root = root ∧ ∀ rel ∈ t.packages root, rel ∈ q.packages
  := by
  obtain ⟨⟨id, v⟩, hchosen⟩ := SortedMap.contains_iff.1 (h.chosen_of_contains hroot)
  obtain ⟨r, -, rfl, -⟩ := h.consistent.selected root id v hchosen
  use .of (effective p root r).1 v (t.usedPackages p.lock root)
  constructor
  · apply List.mem_map.2
      ⟨(root, (effective p root r).1, v), SortedMap.get?_eq_some_iff.1 hchosen, rfl⟩
  constructor
  · apply root_effective
  · intro rel hrel
    apply mem_sortDedup.2
    apply mem_usedPackages.2
    apply Or.inl hrel

/-- A project of a solution that is not overridden meets every rule that joined. -/
theorem admits_of_joined {rule : ProjectRule} {requiredBy : String} (h : sv.Finished p t)
    (hq : q ∈ Solver.solution p t) (hover : p.manifest.overrides.contains q.root = false)
    (hjoined : Joined t q.root requiredBy rule) :
  rule.constraint.admits q.version = true
  := by
  obtain ⟨-, r, hr, -, hmeets, -⟩ := h.of_mem hq
  obtain ⟨r', hr', hdemand⟩ := hjoined
  rw [hr] at hr'
  cases hr'
  cases hany : rule.constraint.isAny with
  | true => apply Constraint.admits_of_isAny hany
  | false =>
    rw [demands_effective hover] at hmeets
    apply Version.meets_iff.1 hmeets _ (hdemand hany)

/-- A project of a solution that is overridden meets the override. -/
theorem admits_of_override {o : ProjectRule} (h : sv.Finished p t) (hq : q ∈ Solver.solution p t)
    (ho : p.manifest.overrides.get? q.root = some o) :
  o.constraint.admits q.version = true
  := by
  obtain ⟨-, r, -, -, hmeets, -⟩ := h.of_mem hq
  cases hany : o.constraint.isAny with
  | true => apply Constraint.admits_of_isAny hany
  | false => apply Version.meets_iff.1 hmeets _ (mem_demands_effective ho hany r)

/-- A rule that is held puts its project into the solution, and unless the project is overridden,
the rule admits its version. -/
theorem exists_of_held {requiredBy : String} {rule : ProjectRule} (h : sv.Finished p t)
    (hheld : Held p t dep requiredBy rule) :
  ∃ q ∈ Solver.solution p t, q.root = dep ∧
    (p.manifest.overrides.contains dep = false → rule.constraint.admits q.version = true)
  := by
  have hcontains : t.requirements.contains dep = true := by
    rcases hheld with ⟨r, hr, -⟩ | ⟨id, v, hv, -⟩
    · apply SortedMap.contains_of_get? hr
    · obtain ⟨r, hr, -⟩ := h.consistent.selected dep id v hv
      apply SortedMap.contains_of_get? hr
  obtain ⟨q, hq, rfl, -⟩ := h.exists_mem hcontains
  use q, hq, rfl
  intro hover
  rcases hheld with hjoined | ⟨id, v, hv, hadmits⟩
  · apply h.admits_of_joined hq hover hjoined
  · obtain ⟨hchosen, -⟩ := h.of_mem hq
    rw [hchosen] at hv
    cases hv
    rcases hadmits with hadmits | hadmits
    · rw [hover] at hadmits
      cases hadmits
    · apply hadmits

end Finished

/-! ### A solve step by step -/

theorem run_of_nil (h : s.queue = []) (budget : Nat) :
  sv.run p budget s = some (.ok s)
  := by
  cases budget with
  | zero => simp [run, h]
  | succ budget => simp [run, h]

theorem run_of_cons {queue : List ProjectRoot} (h : s.queue = root :: queue)
    (hstep : sv.step p root { s with queue } = .ok t) :
  sv.run p (budget + 1) s = sv.run p budget t
  := by
  rw [run]
  simp only [h, hstep]

/-- A larger budget does not change how a run ends. -/
theorem run_mono {budget budget' : Nat} {r : Except SolveFailure SolveState}
    (hle : budget ≤ budget') (h : sv.run p budget s = some r) :
  sv.run p budget' s = some r
  := by
  induction budget generalizing s budget' with
  | zero =>
    rw [run] at h
    split at h
    next hqueue =>
      cases h
      apply run_of_nil hqueue
    next => cases h
  | succ budget ih =>
    obtain ⟨rest, rfl⟩ := Nat.exists_eq_add_of_le' (Nat.zero_lt_succ budget |>.trans_le hle)
    rw [run] at h ⊢
    split at h
    next => apply h
    next root queue hqueue =>
      simp only at h ⊢
      split at h
      next => apply h
      next u hu => apply ih (Nat.le_of_succ_le_succ hle) h

/-- A project that is not checked out only gets its version. -/
theorem step_of_absent {r : Requirement} {v : Version} (hr : s.requirements.get? root = some r)
    (hchosen : s.chosen.contains root = false) (habsent : sv.workspace.directory? root = none)
    (hv : sv.sources.select (effective p root r).1 (effective p root r).2 p.lock = .ok v) :
  sv.step p root s = .ok { s with chosen := s.chosen.insert root ((effective p root r).1, v) }
  := by
  have hsettle : sv.settle p root r s
      = .ok { s with chosen := s.chosen.insert root ((effective p root r).1, v) } := by
    simp [settle, hv, habsent]
  simp only [step, hr, hchosen, hsettle, habsent]
  cases sv.lister with
  | none => rfl
  | some lister => rfl

namespace Sample

def alpha : ProjectRoot := ⟨"x.io/a", by decide⟩

def beta : ProjectRoot := ⟨"y.io/b", by decide⟩

def new : Version := .named (.plain "new")

def old : Version := .named (.plain "old")

/-- The tree of a project that imports `x.io/a`. -/
def home : PackageTree :=
  ⟨"me.io/app", ⟨[("me.io/app", .ok { name := "app", imports := ["x.io/a"] })], by simp⟩⟩

/-- The tree of a checkout of `x.io/a` that imports `y.io/b/lib`. -/
def tree : PackageTree :=
  ⟨"x.io/a", ⟨[("x.io/a", .ok { name := "a", imports := ["y.io/b/lib"] })], by simp⟩⟩

/-- The configuration of the checkout, which asks for one version of `y.io/b`. -/
def configuration : Manifest :=
  { constraints := ⟨[(beta, { constraint := .plain "new" })], by simp⟩ }

/-- A solver for a workspace in which only `x.io/a` is checked out. -/
def solver : Solver where
  sources := { deduceRoot := fun path =>
                 if alpha.contains path then .ok alpha
                 else if beta.contains path then .ok beta
                 else .error (.deduction path .unknownHost)
               listVersions := fun _ => .ok [old, new]
               sync := fun _ => .ok () }
  workspace := { directory? := fun root => if root = alpha then some "/ws/x.io/a" else none
                 version := fun root => if root = alpha then .resolved new else .absent }
  analyzer := { name := "fixed"
                version := 1
                derive := fun _ _ => { result := some (configuration, {}) } }
  lister := some fun _ _ => .ok tree

def problem : SolveProblem where
  tree := home
  manifest := { constraints := ⟨[(alpha, { constraint := .plain "new" })], by simp⟩ }
  lock := { projects := [⟨⟨alpha, none⟩, new, ["."]⟩] }

/-- The projects that are chosen for the problem. -/
def chosen : List LockedProject :=
  [⟨⟨alpha, none⟩, new, ["."]⟩, ⟨⟨beta, none⟩, new, ["lib"]⟩]

theorem externalImports_problem :
  problem.externalImports = ["x.io/a"]
  := by cbv

/-- The requirement on the project that is imported directly. -/
def onAlpha : Requirement := { demands := [⟨"me.io/app", .plain "new"⟩], packages := ["."] }

/-- The requirement on the project that the checkout imports. -/
def onBeta : Requirement := { demands := [⟨"x.io/a", .plain "new"⟩], packages := ["lib"] }

def begun : SolveState where
  requirements := ⟨[(alpha, onAlpha)], by simp⟩
  queue := [alpha]

theorem start_problem :
  solver.start problem = .ok begun
  := by
  rw [start, externalImports_problem]
  rfl

/-- The state in which the checkout has been dealt with. -/
def followed : SolveState where
  requirements := ⟨[(alpha, onAlpha), (beta, onBeta)], by simp; decide⟩
  queue := [beta]
  chosen := ⟨[(alpha, ⟨alpha, none⟩, new)], by simp⟩
  followed := ⟨[("x.io/a", ())], by simp⟩

theorem step_alpha :
  solver.step problem alpha { begun with queue := [] } = .ok followed
  := by
  have himports : importsOf tree.importReach ["x.io/a"] = ["y.io/b/lib"] := by cbv
  change solver.requireFrom problem alpha (importsOf tree.importReach ["x.io/a"]) _ = _
  rw [himports]
  rfl

theorem step_beta :
  solver.step problem beta { followed with queue := [] } = .ok
    { followed with queue := [], chosen := followed.chosen.insert beta (⟨beta, none⟩, new) }
  := by
  have hselect : solver.sources.select ⟨beta, none⟩ onBeta.demands problem.lock = .ok new := by cbv
  apply step_of_absent (r := onBeta) rfl rfl rfl hselect

theorem solve_problem :
  solver.solve problem 2 = some ⟨.ok chosen, []⟩
  := by
  rw [solve, start_problem]
  dsimp only
  rw [run_of_cons rfl step_alpha, run_of_cons rfl step_beta, run_of_nil rfl]
  cbv

end Sample

end DepLock.Solver
