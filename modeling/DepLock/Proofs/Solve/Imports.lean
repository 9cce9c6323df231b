import DepLock.Proofs.Solve.Solution

/-!
# Solutions are closed under imports

Whatever the packages of a checkout import from other projects is in the solution, too, as long as
each recorded package belongs to one project only. A package is followed once, under whatever
project it came up first, so without that condition it might have been followed in another checkout.
-/

namespace DepLock.Solver

open SolveState

variable {sv : Solver} {p : SolveProblem} {t : SolveState} {q : LockedProject} {rel path : String}

/-- The projects of all required or locked packages are deduced from their paths. -/
def Deducible (sv : Solver) (p : SolveProblem) (t : SolveState) : Prop :=
  ∀ root rel, Recorded p t root rel → sv.sources.deduceRoot (root.absolute rel) = .ok root

/-- What the packages of a solution import from other projects is required. -/
theorem Finished.covers (h : sv.Finished p t) (hdeducible : sv.Deducible p t)
    (hq : q ∈ solution p t) (hrel : rel ∈ q.packages)
    (hleads : sv.Leads q.root (q.root.absolute rel) path) (hhome : p.root.contains path = false)
    (hown : q.root.contains path = false) :
  sv.Covers t path
  := by
  obtain ⟨hchosen, r, -, -, -, hpackages⟩ := h.of_mem hq
  have hused := (hpackages rel).1 hrel
  have hlisted := hleads
  obtain ⟨lister, directory, -, -, hlister, hdirectory, -⟩ := hlisted
  have hfollowed : t.followed.contains (q.root.absolute rel) = true := by
    rcases h.consistent.followed lister directory q.root rel hlister hdirectory
      (SortedMap.contains_of_get? hchosen) hused with hfollowed | hwaiting
    · apply hfollowed
    · simp [h.queue] at hwaiting
  obtain ⟨root, rel', heq, hrecorded, hexpanded⟩ := h.complete.expanded _ hfollowed
  have hroot := hdeducible root rel' hrecorded
  rw [← heq, hdeducible q.root rel (recorded_of_mem_usedPackages hused)] at hroot
  cases hroot
  apply hexpanded path hleads hhome hown

/-- Closure under imports, for a source manager that deduces from the path of each recorded package
the project for which it is recorded. -/
theorem closed_under_imports {budget : Nat} {solution : List LockedProject} {log : Log}
    (h : sv.solve p budget = some ⟨.ok solution, log⟩)
    (hdeduces : ∀ r, r ∈ p.lock.projects ∨ r ∈ solution → ∀ rel ∈ r.packages,
      sv.sources.deduceRoot (r.root.absolute rel) = .ok r.root)
    (hq : q ∈ solution) (hrel : rel ∈ q.packages)
    (hleads : sv.Leads q.root (q.root.absolute rel) path) (hhome : p.root.contains path = false)
    (hown : q.root.contains path = false) :
  ∃ r ∈ solution, sv.sources.deduceRoot path = .ok r.root ∧ r.root.relative path ∈ r.packages
  := by
  obtain ⟨s, t, -, -, hfinished, rfl⟩ := exists_finished h
  have hdeducible : sv.Deducible p t := by
    intro root rel hrecorded
    rcases hrecorded with hrequired | ⟨r, hr, rfl, hrel⟩
    · obtain ⟨r, hr, rfl, hpackages⟩ := hfinished.exists_mem (contains_of_mem_packages hrequired)
      apply hdeduces r (.inr hr) rel (hpackages rel hrequired)
    · apply hdeduces r (.inl hr) rel hrel
  obtain ⟨dep, hdep, hpath⟩ := hfinished.covers hdeducible hq hrel hleads hhome hown
  obtain ⟨r, hr, rfl, hpackages⟩ := hfinished.exists_mem (contains_of_mem_packages hpath)
  exact ⟨r, hr, hdep, hpackages _ hpath⟩

theorem closed_under_imports_sample :
  Sample.solver.solve Sample.problem 2 = some ⟨.ok Sample.chosen, []⟩ ∧
    (∀ r, r ∈ Sample.problem.lock.projects ∨ r ∈ Sample.chosen → ∀ rel ∈ r.packages,
      Sample.solver.sources.deduceRoot (r.root.absolute rel) = .ok r.root) ∧
    ⟨⟨Sample.alpha, none⟩, Sample.new, ["."]⟩ ∈ Sample.chosen ∧
    Sample.solver.Leads Sample.alpha (Sample.alpha.absolute ".") "y.io/b/lib" ∧
    Sample.problem.root.contains "y.io/b/lib" = false ∧
    Sample.alpha.contains "y.io/b/lib" = false ∧
    ∃ r ∈ Sample.chosen, Sample.solver.sources.deduceRoot "y.io/b/lib" = .ok r.root ∧
      r.root.relative "y.io/b/lib" ∈ r.packages
  := by
  have hdeduces : ∀ r, r ∈ Sample.problem.lock.projects ∨ r ∈ Sample.chosen → ∀ rel ∈ r.packages,
      Sample.solver.sources.deduceRoot (r.root.absolute rel) = .ok r.root := by
    simp only [Sample.problem, Sample.chosen, List.mem_cons, List.not_mem_nil, or_false]
    rintro r (rfl | rfl | rfl) rel hrel
    · obtain rfl := List.mem_singleton.1 hrel
      rfl
    · obtain rfl := List.mem_singleton.1 hrel
      rfl
    · obtain rfl := List.mem_singleton.1 hrel
      rfl
  have hq : ⟨⟨Sample.alpha, none⟩, Sample.new, ["."]⟩ ∈ Sample.chosen := List.mem_cons_self
  have hentry : Sample.tree.importReach.get? "x.io/a" = some { external := ["y.io/b/lib"] } := by
    cbv
  have hleads : Sample.solver.Leads Sample.alpha (Sample.alpha.absolute ".") "y.io/b/lib" :=
    ⟨_, _, _, _, rfl, rfl, rfl, hentry, List.mem_cons_self, rfl⟩
  use Sample.solve_problem, hdeduces, hq, hleads, rfl, rfl
  apply closed_under_imports Sample.solve_problem hdeduces hq List.mem_cons_self hleads rfl rfl

end DepLock.Solver
