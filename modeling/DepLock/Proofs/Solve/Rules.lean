import DepLock.Proofs.Solve.Solution

/-!
# Rules in force

The rules under which a solution stands. An override holds for its project however the project was
reached. A constraint of the manifest holds for the projects that are required at the start, which
are `Initial`, and is without effect for all others. A rule in the manifest of a dependency puts its
project into the solution and holds for it unless it is overridden.
-/

namespace DepLock

/-- The problem with other constraints in its manifest. -/
def SolveProblem.withConstraints (p : SolveProblem)
    (constraints : SortedMap ProjectRoot ProjectRule) : SolveProblem :=
  { p with manifest := { p.manifest with constraints } }

namespace Solver

open SolveState

variable {sv : Solver} {p : SolveProblem} {s t : SolveState} {root : ProjectRoot}
  {constraints : SortedMap ProjectRoot ProjectRule} {budget : Nat}

/-! ### Projects that are required at the start -/

theorem initial_of_requireImports {paths : List String}
    (hpaths : ∀ path ∈ paths, path ∈ p.externalImports) (h : sv.requireImports p paths s = .ok t)
    (hroot : t.requirements.contains root = true) :
  s.requirements.contains root = true ∨ sv.Initial p root
  := by
  induction paths generalizing s with
  | nil =>
    rw [requireImports] at h
    cases h
    apply Or.inl hroot
  | cons path paths ih =>
    obtain ⟨hpath, hrest⟩ := List.forall_mem_cons.1 hpaths
    rw [requireImports] at h
    split at h
    next => apply ih hrest h
    next hhome =>
      split at h
      next => cases h
      next dep hdep =>
        rcases ih hrest h with hcontains | hinitial
        · rw [requirePackage, contains_require_modify, Bool.or_eq_true] at hcontains
          apply hcontains.symm.imp_right
          intro heq
          obtain rfl := of_decide_eq_true heq
          exact .inl ⟨path, hpath, Bool.eq_false_iff.2 hhome, hdep⟩
        · apply Or.inr hinitial

theorem initial_of_requireLocked {qs : List LockedProject} (hqs : ∀ q ∈ qs, q ∈ p.lock.projects)
    (hroot : (requireLocked { p.lock with projects := qs } s).requirements.contains root = true) :
  s.requirements.contains root = true ∨ sv.Initial p root
  := by
  induction qs generalizing s with
  | nil => apply Or.inl hroot
  | cons q qs ih =>
    obtain ⟨hq, hrest⟩ := List.forall_mem_cons.1 hqs
    simp only [requireLocked, List.foldl_cons] at hroot
    split at hroot
    next => apply ih hrest hroot
    next =>
      rcases ih hrest hroot with hcontains | hinitial
      · rw [contains_require_modify, Bool.or_eq_true] at hcontains
        apply hcontains.symm.imp_right
        intro heq
        obtain rfl := of_decide_eq_true heq
        apply Or.inr
        apply List.find?_isSome.2
        use q, hq
      · apply Or.inr hinitial

/-- Rules on projects that are not required do not join anything. -/
theorem joinAll_filter (requiredBy : String) (rules : List (ProjectRoot × ProjectRule))
    (s : SolveState) :
  joinAll requiredBy rules s
    = joinAll requiredBy (rules.filter fun e => s.requirements.contains e.1) s
  := by
  induction rules generalizing s with
  | nil => rfl
  | cons e rules ih =>
    rw [joinAll, List.foldl_cons, ← joinAll]
    cases hroot : s.requirements.contains e.1 with
    | false =>
      rw [List.filter_cons_of_neg (by simp [hroot]), modify_of_not_contains hroot]
      apply ih
    | true =>
      rw [List.filter_cons_of_pos (by simp [hroot]), ih]
      simp only [contains_modify]
      rfl

/-! ### Other constraints -/

theorem requireImports_withConstraints (paths : List String) (s : SolveState) :
  sv.requireImports (p.withConstraints constraints) paths s = sv.requireImports p paths s
  := by
  induction paths generalizing s with
  | nil => rfl
  | cons path paths ih =>
    rw [requireImports, requireImports]
    simp only [ih]
    rfl

theorem requireFrom_withConstraints (paths : List String) (s : SolveState) :
  sv.requireFrom (p.withConstraints constraints) root paths s = sv.requireFrom p root paths s
  := by
  induction paths generalizing s with
  | nil => rfl
  | cons path paths ih =>
    rw [requireFrom, requireFrom]
    simp only [ih]
    rfl

theorem joinRules_withConstraints (rules : List (ProjectRoot × ProjectRule)) (s : SolveState) :
  joinRules (p.withConstraints constraints) root rules s = joinRules p root rules s
  := by
  induction rules generalizing s with
  | nil => rfl
  | cons rule rules ih =>
    rw [joinRules, joinRules]
    simp only [ih]
    rfl

theorem step_withConstraints (root : ProjectRoot) (s : SolveState) :
  sv.step (p.withConstraints constraints) root s = sv.step p root s
  := by
  have heffective (r : Requirement) :
      effective (p.withConstraints constraints) root r = effective p root r := rfl
  have hlock : (p.withConstraints constraints).lock = p.lock := rfl
  simp only [step, settle, followManifest, followImports, joinRules_withConstraints,
    requireFrom_withConstraints, heffective, hlock]

theorem run_withConstraints (budget : Nat) (s : SolveState) :
  sv.run (p.withConstraints constraints) budget s = sv.run p budget s
  := by
  induction budget generalizing s with
  | zero => rw [run, run]
  | succ budget ih =>
    rw [run, run]
    simp only [step_withConstraints, ih]

/-- Constraints on the projects that are required at the start are all that join. -/
theorem start_withConstraints
    (h : ∀ root, sv.Initial p root → constraints.get? root = p.manifest.constraints.get? root) :
  sv.start (p.withConstraints constraints) = sv.start p
  := by
  have himports : sv.requireImports (p.withConstraints constraints)
      (p.withConstraints constraints).externalImports {} =
      sv.requireImports p p.externalImports {} :=
    requireImports_withConstraints _ _
  rw [start, start, himports]
  cases ht : sv.requireImports p p.externalImports {} with
  | error f => rfl
  | ok t =>
    have hinitial : ∀ root, (requireLocked p.lock t).requirements.contains root = true →
        sv.Initial p root := by
      intro root hroot
      rcases initial_of_requireLocked (fun _ h => h) hroot with hroot | hroot
      · rcases initial_of_requireImports (fun _ h => h) ht hroot with hroot | hroot
        · cases hroot
        · apply hroot
      · apply hroot
    have hfilter : constraints.filter
          (fun root _ => (requireLocked p.lock t).requirements.contains root)
        = p.manifest.constraints.filter
            fun root _ => (requireLocked p.lock t).requirements.contains root := by
      apply SortedMap.ext_get?
      intro root
      rw [SortedMap.get?_filter, SortedMap.get?_filter]
      cases hroot : (requireLocked p.lock t).requirements.contains root with
      | false => simp
      | true => rw [h root (hinitial root hroot)]
    simp only [Except.map, joinConstraints_eq]
    congr 1
    rw [joinAll_filter, joinAll_filter p.root.text p.manifest.constraints.toList]
    apply congrArg
      (fun m => joinAll p.root.text (SortedMap.toList m) (requireLocked p.lock t)) hfilter

/-- Constraints on projects that are not required at the start do not change the outcome. -/
theorem solve_withConstraints
    (h : ∀ root, sv.Initial p root → constraints.get? root = p.manifest.constraints.get? root)
    (budget : Nat) :
  sv.solve (p.withConstraints constraints) budget = sv.solve p budget
  := by
  rw [solve, solve, start_withConstraints h]
  simp only [run_withConstraints]
  rfl

/-! ### Rules of the manifest -/

/-- Overrides hold for every project of a solution, and constraints for those of the other projects
that are required at the start. Other constraints have no effect. -/
theorem root_rules_in_force {solution : List LockedProject} {log : Log}
    (h : sv.solve p budget = some ⟨.ok solution, log⟩) :
  (∀ q ∈ solution, ∀ o, p.manifest.overrides.get? q.root = some o →
    o.constraint.admits q.version = true) ∧
  (∀ q ∈ solution, ∀ rule, p.manifest.overrides.contains q.root = false →
    p.manifest.constraints.get? q.root = some rule → sv.Initial p q.root →
    rule.constraint.admits q.version = true) ∧
  ∀ constraints, (∀ root, sv.Initial p root →
      constraints.get? root = p.manifest.constraints.get? root) →
    sv.solve (p.withConstraints constraints) budget = some ⟨.ok solution, log⟩
  := by
  obtain ⟨s, t, hs, hextends, hfinished, rfl⟩ := exists_finished h
  refine ⟨?_, ?_, ?_⟩
  · intro q hq o ho
    apply hfinished.admits_of_override hq ho
  · intro q hq rule hover hrule hinitial
    obtain ⟨-, -, hstart⟩ := start_spec hs
    obtain ⟨-, hjoined⟩ := hstart q.root hinitial
    apply hfinished.admits_of_joined hq hover ((hjoined rule hrule).mono hextends)
  · intro constraints hconstraints
    rw [solve_withConstraints hconstraints]
    apply h

namespace Sample

/-- The constraints of the problem with one more, on a project that only a checkout imports. -/
def late : SortedMap ProjectRoot ProjectRule :=
  ⟨[(alpha, { constraint := .plain "new" }), (beta, { constraint := .plain "old" })],
    by simp; decide⟩

theorem eq_alpha_of_initial (h : solver.Initial problem root) :
  root = alpha
  := by
  rcases h with ⟨path, hpath, -, hroot⟩ | hlocked
  · rw [externalImports_problem, List.mem_singleton] at hpath
    subst hpath
    cases hroot
    rfl
  · obtain ⟨q, hq, hroot⟩ := List.find?_isSome.1 hlocked
    obtain rfl := List.mem_singleton.1 hq
    symm
    apply of_decide_eq_true hroot

theorem get?_late (h : solver.Initial problem root) :
  late.get? root = problem.manifest.constraints.get? root
  := by
  rw [eq_alpha_of_initial h]
  rfl

end Sample

theorem root_rules_in_force_sample :
  Sample.solver.solve Sample.problem 2 = some ⟨.ok Sample.chosen, []⟩ ∧
    Sample.solver.Initial Sample.problem Sample.alpha ∧
    (Constraint.plain "new").admits Sample.new = true ∧
    Sample.solver.solve (Sample.problem.withConstraints Sample.late) 2
      = some ⟨.ok Sample.chosen, []⟩
  := by
  obtain ⟨-, hconstraints, hothers⟩ := root_rules_in_force Sample.solve_problem
  have hinitial : Sample.solver.Initial Sample.problem Sample.alpha := .inr rfl
  use Sample.solve_problem, hinitial
  constructor
  · apply hconstraints ⟨⟨Sample.alpha, none⟩, Sample.new, ["."]⟩ List.mem_cons_self
      { constraint := .plain "new" } rfl rfl hinitial
  · apply hothers Sample.late
    intro root
    apply Sample.get?_late

/-- A constraint on a project that only a checkout imports does not hold for its version. -/
theorem constraint_without_effect :
  ¬ ∀ (sv : Solver) (p : SolveProblem) (budget : Nat) (solution : List LockedProject) (log : Log),
    sv.solve p budget = some ⟨.ok solution, log⟩ → ∀ q ∈ solution,
      (∀ o, p.manifest.overrides.get? q.root = some o → o.constraint.isAny = false →
        o.constraint.admits q.version = true) ∧
      (p.manifest.overrides.contains q.root = false → ∀ rule,
        p.manifest.constraints.get? q.root = some rule → rule.constraint.admits q.version = true)
  := by
  intro h
  have hsolve : Sample.solver.solve (Sample.problem.withConstraints Sample.late) 2
      = some ⟨.ok Sample.chosen, []⟩ := by
    rw [solve_withConstraints fun _ => Sample.get?_late, Sample.solve_problem]
  have hbeta : ⟨⟨Sample.beta, none⟩, Sample.new, ["lib"]⟩ ∈ Sample.chosen := by simp [Sample.chosen]
  obtain ⟨-, hadmits⟩ := h _ _ _ _ _ hsolve _ hbeta
  cases hadmits rfl { constraint := .plain "old" } rfl

/-! ### Rules of dependencies -/

/-- A rule in the manifest of a checked-out project of a solution puts its project into the
solution, and holds for it unless it is overridden. -/
theorem dependency_rules_in_force {solution : List LockedProject} {log : Log}
    (h : sv.solve p budget = some ⟨.ok solution, log⟩) {q : LockedProject} (hq : q ∈ solution)
    {dep : ProjectRoot} {rule : ProjectRule} (hrule : sv.Declares q.root dep rule)
    (hhome : dep ≠ p.root) (hown : dep ≠ q.root) :
  ∃ r ∈ solution, r.root = dep ∧
    (p.manifest.overrides.contains dep = false → rule.constraint.admits r.version = true)
  := by
  obtain ⟨s, t, -, -, hfinished, rfl⟩ := exists_finished h
  obtain ⟨hchosen, -⟩ := hfinished.of_mem hq
  have hheld := hfinished.complete.held q.root dep rule (SortedMap.contains_of_get? hchosen) hrule
    hhome hown
  apply hfinished.exists_of_held hheld

theorem dependency_rules_in_force_sample :
  Sample.solver.solve Sample.problem 2 = some ⟨.ok Sample.chosen, []⟩ ∧
    ⟨⟨Sample.alpha, none⟩, Sample.new, ["."]⟩ ∈ Sample.chosen ∧
    Sample.solver.Declares Sample.alpha Sample.beta { constraint := .plain "new" } ∧
    Sample.beta ≠ Sample.problem.root ∧ Sample.beta ≠ Sample.alpha ∧
    ∃ r ∈ Sample.chosen, r.root = Sample.beta ∧
      (Constraint.plain "new").admits r.version = true
  := by
  have hq : ⟨⟨Sample.alpha, none⟩, Sample.new, ["."]⟩ ∈ Sample.chosen := List.mem_cons_self
  have hdeclares : Sample.solver.Declares Sample.alpha Sample.beta { constraint := .plain "new" } :=
    ⟨_, _, _, rfl, rfl, rfl⟩
  have hhome : Sample.beta ≠ Sample.problem.root := by decide
  have hown : Sample.beta ≠ Sample.alpha := by decide
  obtain ⟨r, hr, hroot, hadmits⟩ :=
    dependency_rules_in_force Sample.solve_problem hq hdeclares hhome hown
  exact ⟨Sample.solve_problem, hq, hdeclares, hhome, hown, r, hr, hroot, hadmits rfl⟩

end Solver
end DepLock
