import DepLock.Proofs.Discovery.Coverage
import DepLock.Proofs.Discovery.Nesting

/-!
# When discovery succeeds

With the budget of its workspace, discovery always has an outcome. It succeeds exactly when the
project of every reached package outside the project itself can be deduced and no reached package
leads back to itself; otherwise the error names a package for which that fails. The packages of the
project itself are passed over, even if the workspace has a checkout of it: what is imported by no
others is not reached.
-/

namespace DepLock.Discovery

open Relation

variable {d : Discovery} {home : ProjectRoot} {direct : List String} {tree : PackageTree}
  {roots : List ProjectRoot} {budget : Nat}

/-- Nothing stands in the way of a walk when all that is reached can be deduced and lies on no
cycle. -/
theorem not_obstructs_iff :
  (∀ e, ¬ d.Obstructs home direct e) ↔
    (∀ path, d.Reached home direct path → home.contains path = false →
      ∃ root, d.sources.deduceRoot path = .ok root) ∧
    ¬ ∃ path, d.Reached home direct path ∧ TransGen (d.Follows home) path path
  := by
  constructor
  · intro hnone
    constructor
    · intro path hpath houtside
      cases hroot : d.sources.deduceRoot path with
      | ok root => exact ⟨root, rfl⟩
      | error cause => apply absurd (.deduceRoot hpath houtside hroot) (hnone _)
    · rintro ⟨path, hpath, hcycle⟩
      apply hnone _ (.importCycle hpath hcycle)
  · rintro ⟨hdeducible, hacyclic⟩ e hobstructs
    cases hobstructs with
    | importCycle hpath hcycle => apply hacyclic ⟨_, hpath, hcycle⟩
    | deduceRoot hpath houtside hcause =>
      obtain ⟨root, hroot⟩ := hdeducible _ hpath houtside
      rw [hcause] at hroot
      cases hroot

/-- With the budget of its workspace, discovery has the outcome of a walk that explores everything or
fails for a reason. -/
theorem exists_discover (hroots : ∀ root, d.workspace.directory? root ≠ none → root ∈ roots)
    (hbudget : d.budget tree roots ≤ budget) :
  ∃ o r, d.discover tree budget = some o ∧ o.result = (Outcome.ofWalk r).result ∧
    d.Concludes tree.projectRoot (directImports tree) r
  := by
  have houtcome : ∃ o, d.discover tree budget = some o := by
    simp only [discover]
    split
    next => exact ⟨_, rfl⟩
    next =>
      obtain ⟨r, hr, -⟩ := walkAlong_concludes .listed
        [.status .searching s!"workspace for {(directImports tree).length} direct imports"] hroots
        (fun p => Iff.rfl) hbudget
      rw [walkAlong_listed] at hr
      rw [hr]
      exact ⟨_, rfl⟩
  obtain ⟨o, ho⟩ := houtcome
  obtain ⟨log, r, hr, hresult, -⟩ := exists_walk ho
  have hconcludes := concludes_of_walkAlong (fun p => Iff.rfl)
    (fun p hp => (outside_of_mem_directImports hp).2) hr
  exact ⟨o, r, ho, hresult, hconcludes⟩

/-- Discovery succeeds exactly on deducible, acyclic imports, and an error names a package that lies
on a cycle or cannot be deduced. -/
theorem discover_succeeds_iff
    (hroots : ∀ root, d.workspace.directory? root ≠ none → root ∈ roots)
    (hbudget : d.budget tree roots ≤ budget) :
  ∃ o, d.discover tree budget = some o ∧
    ((∃ data, o.result = .ok data) ↔
      (∀ path, d.Reached tree.projectRoot (directImports tree) path →
        tree.projectRoot.contains path = false → ∃ root, d.sources.deduceRoot path = .ok root) ∧
      ¬ ∃ path, d.Reached tree.projectRoot (directImports tree) path ∧
        TransGen (d.Follows tree.projectRoot) path path) ∧
    (∀ path, o.result = .error (.importCycle path) →
      d.Reached tree.projectRoot (directImports tree) path ∧
        TransGen (d.Follows tree.projectRoot) path path) ∧
    (∀ path cause, o.result = .error (.deduceRoot path cause) →
      d.Reached tree.projectRoot (directImports tree) path ∧
        tree.projectRoot.contains path = false ∧ d.sources.deduceRoot path = .error cause)
  := by
  obtain ⟨o, r, ho, hresult, hconcludes⟩ := exists_discover hroots hbudget
  use o, ho
  rw [← not_obstructs_iff, ← hconcludes.succeeds_iff, hresult]
  cases r with
  | ok w => simp [Outcome.ofWalk]
  | error f =>
    refine ⟨by simp [Outcome.ofWalk], ?_, ?_⟩
    · intro path herror
      rw [Outcome.ofWalk, Except.error.injEq] at herror
      rw [Concludes, herror] at hconcludes
      cases hconcludes with
      | importCycle hpath hcycle => exact ⟨hpath, hcycle⟩
    · intro path cause herror
      rw [Outcome.ofWalk, Except.error.injEq] at herror
      rw [Concludes, herror] at hconcludes
      cases hconcludes with
      | deduceRoot hpath houtside hcause => exact ⟨hpath, houtside, hcause⟩

theorem discover_succeeds_sample :
  (∀ root, Sample.discovery.workspace.directory? root ≠ none → root ∈ [Solver.Sample.alpha]) ∧
    Sample.discovery.budget Solver.Sample.home [Solver.Sample.alpha] ≤ 3 ∧
    ∃ o, Sample.discovery.discover Solver.Sample.home 3 = some o ∧
      ((∃ data, o.result = .ok data) ↔
        (∀ path, Sample.discovery.Reached Solver.Sample.home.projectRoot
            (directImports Solver.Sample.home) path →
          Solver.Sample.home.projectRoot.contains path = false →
            ∃ root, Sample.discovery.sources.deduceRoot path = .ok root) ∧
        ¬ ∃ path, Sample.discovery.Reached Solver.Sample.home.projectRoot
            (directImports Solver.Sample.home) path ∧
          TransGen (Sample.discovery.Follows Solver.Sample.home.projectRoot) path path)
  := by
  have hroots : ∀ root, Sample.discovery.workspace.directory? root ≠ none →
      root ∈ [Solver.Sample.alpha] := fun root => Sample.mem_of_directory
  have hbudget : Sample.discovery.budget Solver.Sample.home [Solver.Sample.alpha] ≤ 3 := by cbv
  obtain ⟨o, ho, hsucceeds, -⟩ := discover_succeeds_iff hroots hbudget
  exact ⟨hroots, hbudget, o, ho, hsucceeds⟩

/-! ### Imports of the project itself -/

namespace Sample

open Solver.Sample

/-- The tree of a project `y.io/b` that imports `x.io/a`. -/
def around : PackageTree :=
  ⟨"y.io/b", ⟨[("y.io/b", .ok { name := "b", imports := ["x.io/a"] })], by simp⟩⟩

/-- The tree of a checkout of `y.io/b` that imports `z.io/c`. -/
def aside : PackageTree :=
  ⟨"y.io/b", ⟨[("y.io/b/lib", .ok { name := "lib", imports := ["z.io/c"] })], by simp⟩⟩

/-- Discovery in a workspace in which `y.io/b` is checked out, too. -/
def returning : Discovery :=
  { sources := discovery.sources
    lister := fun directory _ => .ok <|
      if directory = "/ws/y.io/b" then aside else Solver.Sample.tree
    workspace :=
      { directory? := fun root =>
          if root = alpha then some "/ws/x.io/a"
          else if root = beta then some "/ws/y.io/b"
          else none
        version := fun root => if root = alpha ∨ root = beta then .resolved new else .absent } }

/-- The walk in which `x.io/a` is visited and `y.io/b/lib` is passed over. -/
def returned : Walk :=
  { entered with colors := visited.colors }

theorem directImports_around :
  directImports around = ["x.io/a"]
  := by cbv

theorem discover_around :
  returning.discover around 4 = some ⟨.ok returned.data.normalize, [alpha], log⟩
  := by
  have hreach : around.reach { mains := true, tests := true, propagate := false }
      = (⟨[("y.io/b", { external := ["x.io/a"] })], by simp⟩, ∅) := by cbv
  have hvisit : returning.visit around.projectRoot 4 classified "x.io/a" = some (.ok returned) := by
    rw [visit, enter_alpha rfl rfl rfl rfl rfl]
    rfl
  have hwalk : returning.walk around.projectRoot ["x.io/a"] 4
      { log := [.status .searching "workspace for 1 direct imports"] } = some (.ok returned) := by
    change visitEach (returning.visit around.projectRoot 4) classified ["x.io/a"] = _
    rw [visitEach, hvisit]
    rfl
  rw [discover, hreach, directImports_around]
  change Option.map Outcome.ofWalk (returning.walk around.projectRoot ["x.io/a"] 4
    { log := [.status .searching "workspace for 1 direct imports"] }) = _
  rw [hwalk]
  rfl

theorem imports_lib :
  returning.Imports "x.io/a" "y.io/b/lib"
  := by
  have hc : returning.checkoutAt alpha = some checkout := checkoutAt_eq_some_iff.2
    ⟨"/ws/x.io/a", new, Solver.Sample.tree, rfl, rfl, rfl, rfl⟩
  have hentry : checkout.reach.get? "x.io/a" = some { external := ["y.io/b/lib"] } := by cbv
  exact ⟨alpha, checkout, _, rfl, hc, hentry, by simp, rfl⟩

theorem imports_aside :
  returning.Imports "y.io/b/lib" "z.io/c"
  := by
  have hc := checkoutAt_eq_some_iff.2 ⟨"/ws/y.io/b", new, aside,
    (rfl : returning.workspace.directory? beta = _), rfl, rfl, rfl⟩
  have hentry : aside.importReach.get? "y.io/b/lib" = some { external := ["z.io/c"] } := by cbv
  exact ⟨beta, _, _, rfl, hc, hentry, by simp, rfl⟩

end Sample

/-- Imports that only a checkout of the project itself has do not matter: here discovery succeeds
although the project of `z.io/c`, to which the direct imports lead through a usable package of the
project itself, cannot be deduced. -/
theorem not_discover_succeeds_through_home :
  (∀ root, Sample.returning.workspace.directory? root ≠ none →
      root ∈ [Solver.Sample.alpha, Solver.Sample.beta]) ∧
    Sample.returning.budget Sample.around [Solver.Sample.alpha, Solver.Sample.beta] ≤ 4 ∧
    ∃ o, Sample.returning.discover Sample.around 4 = some o ∧
      ¬ ((∃ data, o.result = .ok data) ↔
        (∀ path, (∃ start ∈ directImports Sample.around,
            ReflTransGen Sample.returning.Imports start path) →
          Sample.around.projectRoot.contains path = false →
            ∃ root, Sample.returning.sources.deduceRoot path = .ok root) ∧
        ¬ ∃ path, (∃ start ∈ directImports Sample.around,
            ReflTransGen Sample.returning.Imports start path) ∧
          TransGen (Sample.returning.Follows Sample.around.projectRoot) path path)
  := by
  refine ⟨?_, by cbv, ?_⟩
  · intro root hroot
    by_contra hother
    rw [List.mem_pair, not_or] at hother
    apply hroot ((if_neg hother.1).trans (if_neg hother.2))
  · refine ⟨_, Sample.discover_around, ?_⟩
    intro hsucceeds
    obtain ⟨hdeducible, -⟩ := hsucceeds.1 ⟨_, rfl⟩
    -- `y.io/b/lib` is usable, but belongs to the project itself, and the walk stops there
    have hdirect : "x.io/a" ∈ directImports Sample.around := by simp [Sample.directImports_around]
    have hlead : ReflTransGen Sample.returning.Imports "x.io/a" "z.io/c" :=
      .tail (.single Sample.imports_lib) Sample.imports_aside
    obtain ⟨root, hroot⟩ := hdeducible "z.io/c" ⟨"x.io/a", hdirect, hlead⟩ rfl
    cases hroot

end DepLock.Discovery
