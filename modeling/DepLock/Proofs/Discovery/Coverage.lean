import DepLock.Proofs.Discovery.Explored
import DepLock.Proofs.ProjectRoot
import DepLock.Proofs.Solve.Imports

/-!
# A solution covers what was discovered

Discovery walks over import paths and a solve works through a queue of projects with packages named
relative to their roots. When roots contain the paths they are deduced from and import paths are
proper, the two names of a package determine each other. Then every package that the walk reaches is
required by the solve that starts from the discovered manifest and lock, by induction on how it is
reached: one that is imported directly is required at the start, and one that is imported from a
checkout because solutions are closed under imports.
-/

namespace DepLock

/-- What there is to solve after discovery. -/
def ProjectData.problem (data : ProjectData) (tree : PackageTree) : SolveProblem :=
  { tree, manifest := data.manifest, lock := data.lock }

namespace Discovery

open Solver SolveState

/-- The solver that works with what discovery works with. -/
def solver (d : Discovery) (analyzer : Analyzer) : Solver :=
  { sources := d.sources, workspace := d.workspace, analyzer, lister := some d.lister }

/-- Whether roots contain the paths they are deduced from and import paths are proper. -/
structure Rooted (d : Discovery) (tree : PackageTree) : Prop where
  contains : ∀ path root, d.sources.deduceRoot path = .ok root → root.contains path = true
  proper : ∀ path, tree.Imports path → ImportPath.IsProper path
  proper_listed : ∀ root directory listed, d.workspace.directory? root = some directory →
    d.lister directory root.text = .ok listed →
    ∀ path, listed.Imports path → ImportPath.IsProper path

/-- Whether roots contain the paths they are deduced from, listed trees carry the roots of their
projects, and import paths are proper. -/
structure Regular (d : Discovery) (tree : PackageTree) : Prop where
  contains : ∀ path root, d.sources.deduceRoot path = .ok root → root.contains path = true
  carries : ∀ root directory listed, d.workspace.directory? root = some directory →
    d.lister directory root.text = .ok listed → listed.projectRoot = root
  proper : ∀ path, tree.Imports path → ImportPath.IsProper path
  proper_listed : ∀ root directory listed, d.workspace.directory? root = some directory →
    d.lister directory root.text = .ok listed →
    ∀ path, listed.Imports path → ImportPath.IsProper path

section Coverage

variable {d : Discovery} {analyzer : Analyzer} {tree : PackageTree} {data : ProjectData}
  {root : ProjectRoot} {start path rel : String} {t : SolveState} {budget : Nat}
  {synced : List ProjectRoot} {log : Log}

/-! ### Imports of checkouts -/

/-- What the walk follows from a usable checkout, the solver follows, too. -/
theorem leads_of_imports (h : d.Imports start path) (hroot : d.sources.deduceRoot start = .ok root) :
  (d.solver analyzer).Leads root start path
  := by
  obtain ⟨directory, listed, e, hdirectory, hlisted, he, hexternal, hstandard⟩ := h.listed hroot
  exact ⟨d.lister, directory, listed, e, rfl, hdirectory, hlisted, he, hexternal, hstandard⟩

theorem Rooted.proper_of_reached (h : d.Rooted tree)
    (hpath : d.Reached tree.projectRoot (directImports tree) path) :
  ImportPath.IsProper path
  := by
  cases hpath with
  | direct hpath => apply h.proper path (outside_of_mem_directImports hpath).1
  | imported hstart hfollows =>
    obtain ⟨root, hroot⟩ := hfollows.imports.owned
    obtain ⟨directory, listed, e, hdirectory, hlisted, he, hexternal, -⟩ :=
      hfollows.imports.listed hroot
    apply h.proper_listed _ directory listed hdirectory hlisted
    apply (PackageTree.external_of_reach he hexternal).1

namespace Regular

theorem proper_of_leads (h : d.Regular tree) (hleads : (d.solver analyzer).Leads root start path) :
  ImportPath.IsProper path
  := by
  obtain ⟨lister, directory, listed, e, hlister, hdirectory, hlisted, he, hexternal, -⟩ := hleads
  cases hlister
  apply h.proper_listed root directory listed hdirectory hlisted
  apply (PackageTree.external_of_reach he hexternal).1

/-- What leaves a checkout lies outside its project. -/
theorem outside_of_leads (h : d.Regular tree) (hleads : (d.solver analyzer).Leads root start path) :
  root.contains path = false
  := by
  obtain ⟨lister, directory, listed, e, hlister, hdirectory, hlisted, he, hexternal, -⟩ := hleads
  cases hlister
  obtain ⟨-, hinternal⟩ := PackageTree.external_of_reach he hexternal
  rw [PackageTree.isInternal, h.carries root directory listed hdirectory hlisted] at hinternal
  apply hinternal

theorem proper_of_mem_directImports (h : d.Regular tree) (hpath : path ∈ directImports tree) :
  ImportPath.IsProper path
  := h.proper path (outside_of_mem_directImports hpath).1

theorem rooted (h : d.Regular tree) :
  d.Rooted tree
  := ⟨h.contains, h.proper, h.proper_listed⟩

theorem proper_of_reached (h : d.Regular tree)
    (hpath : d.Reached tree.projectRoot (directImports tree) path) :
  ImportPath.IsProper path
  := h.rooted.proper_of_reached hpath

/-- A package of a project has the path that its name relative to the project gives. -/
theorem deduces_back (h : d.Regular tree) (hpath : ImportPath.IsProper path)
    (hroot : d.sources.deduceRoot path = .ok root) :
  d.sources.deduceRoot (root.absolute (root.relative path)) = .ok root
  := by
  rw [ProjectRoot.absolute_relative (h.contains path root hroot) hpath]
  apply hroot

end Regular

/-! ### The problem after discovery -/

/-- The imports to solve are the direct imports. -/
theorem mem_externalImports_problem :
  path ∈ (data.problem tree).externalImports ↔ path ∈ directImports tree
  := by
  rw [SolveProblem.externalImports, mem_sortDedup]
  simp only [ProjectData.problem, ProjectData.manifest, List.append_nil]
  rfl

/-- The lock that discovery gives holds packages that the walk used. -/
theorem uses_of_mem_lock (h : d.discover tree budget = some ⟨.ok data, synced, log⟩)
    {q : LockedProject} (hq : q ∈ data.lock.projects) (hrel : rel ∈ q.packages) :
  ∃ path, d.Uses tree.projectRoot (directImports tree) q.root path ∧ rel = q.root.relative path
  := by
  obtain ⟨⟨root, version⟩, -, rfl⟩ := List.mem_map.1 (Lock.mem_of_mem_ofProjects hq)
  obtain ⟨path, hpath, rfl⟩ := List.mem_map.1 (mem_sortDedup.1 hrel)
  use path
  cases hpaths : data.dependencies.get? root with
  | none =>
    rw [hpaths] at hpath
    cases hpath
  | some paths =>
    rw [hpaths] at hpath
    use (uses_of_discover h hpaths).2 path hpath
    rfl

namespace Regular

/-- All that a solve after discovery requires or finds locked belongs to its project. -/
theorem deducible (h : d.Regular tree)
    (hdata : d.discover tree budget = some ⟨.ok data, synced, log⟩)
    (ht : (d.solver analyzer).Finished (data.problem tree) t) :
  (d.solver analyzer).Deducible (data.problem tree) t
  := by
  intro root rel hrecorded
  rcases hrecorded with hrequired | ⟨q, hq, rfl, hrel⟩
  · obtain ⟨path, hwanted, -, hroot, rfl⟩ := ht.consistent.sourced root rel hrequired
    apply h.deduces_back _ hroot
    cases hwanted with
    | direct hpath => apply h.proper_of_mem_directImports (mem_externalImports_problem.1 hpath)
    | imported hleads => apply h.proper_of_leads hleads
  · obtain ⟨path, huses, rfl⟩ := uses_of_mem_lock hdata hq hrel
    apply h.deduces_back (h.proper_of_reached huses.reached) huses.owned

/-- Whatever the walk reaches outside the project itself is required in the end. -/
theorem covers_of_reached (h : d.Regular tree)
    (hdata : d.discover tree budget = some ⟨.ok data, synced, log⟩) {s : SolveState}
    (hs : (d.solver analyzer).start (data.problem tree) = .ok s) (hextends : Extends s t)
    (ht : (d.solver analyzer).Finished (data.problem tree) t)
    (hpath : d.Reached tree.projectRoot (directImports tree) path)
    (hhome : tree.projectRoot.contains path = false) :
  (d.solver analyzer).Covers t path
  := by
  induction hpath with
  | direct hpath =>
    obtain ⟨-, hcovers, -⟩ := start_spec hs
    apply (hcovers _ (mem_externalImports_problem.2 hpath) hhome).mono hextends
  | imported hstart hfollows ih =>
    obtain ⟨root, hroot, hrel⟩ := ih hfollows.outside
    rw [show (d.solver analyzer).sources = d.sources from rfl] at hroot
    obtain ⟨q, hq, rfl, hpackages⟩ := ht.exists_mem (contains_of_mem_packages hrel)
    have hleads : (d.solver analyzer).Leads q.root _ _ := leads_of_imports hfollows.imports hroot
    rw [← ProjectRoot.absolute_relative (h.contains _ _ hroot) (h.proper_of_reached hstart)]
      at hleads
    apply ht.covers (h.deducible hdata ht) hq (hpackages _ hrel) hleads hhome
    apply h.outside_of_leads hleads

end Regular

/-- The solver covers discovery. -/
theorem discovered_in_solution (hregular : d.Regular tree)
    (hdata : d.discover tree budget = some ⟨.ok data, synced, log⟩) {solveBudget : Nat}
    {solution : List LockedProject} {solveLog : Log}
    (hsolve : (d.solver analyzer).solve (data.problem tree) solveBudget
      = some ⟨.ok solution, solveLog⟩)
    {paths : List String} (hpaths : data.dependencies.get? root = some paths) :
  ∃ q ∈ solution, q.root = root ∧ ∀ path ∈ paths, root.relative path ∈ q.packages
  := by
  obtain ⟨s, t, hs, hextends, hfinished, rfl⟩ := exists_finished hsolve
  obtain ⟨hne, huses⟩ := uses_of_discover hdata hpaths
  have hrequired : ∀ path ∈ paths, root.relative path ∈ t.packages root := by
    intro path hpath
    obtain ⟨hreached, hhome, howned⟩ := huses path hpath
    obtain ⟨dep, hdep, hrel⟩ :=
      hregular.covers_of_reached hdata hs hextends hfinished hreached hhome
    rw [show (d.solver analyzer).sources = d.sources from rfl, howned] at hdep
    cases hdep
    apply hrel
  obtain ⟨path, hpath⟩ := List.exists_mem_of_ne_nil paths hne
  obtain ⟨q, hq, hroot, hpackages⟩ :=
    hfinished.exists_mem (contains_of_mem_packages (hrequired path hpath))
  use q, hq, hroot
  intro path hpath
  apply hpackages _ (hrequired path hpath)

end Coverage

/-! ### A discovery step by step -/

namespace Sample

open Solver.Sample

/-- Discovery in the workspace of the sample problem. -/
def discovery : Discovery :=
  { sources := Solver.Sample.solver.sources
    lister := fun _ _ => .ok Solver.Sample.tree
    workspace := Solver.Sample.solver.workspace }

theorem mem_of_directory {root : ProjectRoot} (h : discovery.workspace.directory? root ≠ none) :
  root ∈ [alpha]
  := by
  by_contra hother
  apply h (if_neg (by simpa using hother))

/-- What is discovered: one project that is checked out, and one that it imports and that is not. -/
def data : ProjectData where
  constraints := problem.manifest.constraints
  dependencies := ⟨[(alpha, ["x.io/a"]), (beta, ["y.io/b/lib"])], by simp; decide⟩
  direct := ⟨[(alpha, ())], by simp⟩
  onDisk := ⟨[(alpha, new)], by simp⟩
  notOnDisk := ⟨[(beta, ())], by simp⟩

def log : Log :=
  [.status .searching "workspace for 1 direct imports",
    .detail .info "found x.io/a at new in workspace"]

def checkout : Checkout :=
  ⟨new, Solver.Sample.tree.importReach,
    (Solver.Sample.tree.reach { mains := true, tests := false, propagate := false }).2⟩

/-- The walk in which the direct import is classified. -/
def classified : Walk where
  data := { data with dependencies := ⟨[(alpha, ["x.io/a"])], by simp⟩, notOnDisk := ∅ }
  synced := [alpha]
  log := log

/-- The walk in which the checkout is entered. -/
def entered : Walk where
  data := { classified.data with dependencies := ⟨[(alpha, ["x.io/a", "x.io/a"])], by simp⟩ }
  colors := ⟨[("x.io/a", .grey)], by simp⟩
  checkouts := ⟨[(alpha, checkout)], by simp⟩
  synced := [alpha]
  log := log

/-- The walk in which both packages are visited. -/
def visited : Walk where
  data := { data with dependencies :=
    ⟨[(alpha, ["x.io/a", "x.io/a"]), (beta, ["y.io/b/lib"])], by simp; decide⟩ }
  colors := ⟨[("x.io/a", .black), ("y.io/b/lib", .black)], by simp; decide⟩
  checkouts := ⟨[(alpha, checkout)], by simp⟩
  synced := [alpha, beta]
  log := log

/-- Where `x.io/a` is checked out like this and lies outside the project itself, its checkout is
entered. -/
theorem enter_alpha {d : Discovery} {home : ProjectRoot} (hhome : home.contains "x.io/a" = false)
    (hroot : d.sources.deduceRoot "x.io/a" = .ok alpha)
    (hdirectory : d.workspace.directory? alpha = some "/ws/x.io/a")
    (hversion : d.workspace.version alpha = .resolved new)
    (htree : d.lister "/ws/x.io/a" alpha.text = .ok Solver.Sample.tree) :
  d.enter home classified "x.io/a" = .ok (entered, some ["y.io/b/lib"])
  := by
  have hknown : (classified.data.onDisk.get? alpha).or (d.workspace.version alpha).version?
      = some new := by rw [hversion]; rfl
  have hload : d.load ((classified.paint "x.io/a" .grey).sync alpha) alpha
      = (_, some checkout) := load_of_listed hdirectory hknown htree
  have hcheckout : d.checkout ((classified.paint "x.io/a" .grey).sync alpha) alpha
      = d.load ((classified.paint "x.io/a" .grey).sync alpha) alpha := rfl
  rw [hload] at hcheckout
  have himports : Checkout.imports? checkout "x.io/a" = some ["y.io/b/lib"] := by cbv
  apply enter_of_imports rfl hhome hroot hcheckout himports

theorem discover_home :
  discovery.discover home 2 = some ⟨.ok data, [alpha, beta], log⟩
  := by
  have hreach : home.reach { mains := true, tests := true, propagate := false }
      = (⟨[("me.io/app", { external := ["x.io/a"] })], by simp⟩, ∅) := by cbv
  have hdirect : directImports home = ["x.io/a"] := by cbv
  have hvisit : discovery.visit home.projectRoot 2 classified "x.io/a" = some (.ok visited) := by
    rw [visit, enter_alpha rfl rfl rfl rfl rfl]
    rfl
  have hwalk : discovery.walk home.projectRoot ["x.io/a"] 2
      { log := [.status .searching "workspace for 1 direct imports"] } = some (.ok visited) := by
    change visitEach (discovery.visit home.projectRoot 2) classified ["x.io/a"] = _
    rw [visitEach, hvisit]
    rfl
  have hdata : Outcome.ofWalk (.ok visited) = ⟨.ok data, [alpha, beta], log⟩ := by cbv
  rw [discover, hreach, hdirect, ← hdata]
  change Option.map Outcome.ofWalk (discovery.walk home.projectRoot ["x.io/a"] 2
    { log := [.status .searching "workspace for 1 direct imports"] }) = _
  rw [hwalk]
  rfl

theorem regular :
  discovery.Regular home
  where
  contains path root h := by
    simp only [discovery, Solver.Sample.solver] at h
    split at h
    next halpha =>
      cases h
      apply halpha
    next =>
      split at h
      next hbeta =>
        cases h
        apply hbeta
      next => cases h
  carries root directory listed hdirectory hlisted := by
    simp only [discovery, Solver.Sample.solver] at hdirectory
    split at hdirectory
    next heq =>
      subst heq
      cases hlisted
      rfl
    next => cases hdirectory
  proper path h := by
    obtain ⟨start, p, hp, hpath⟩ := h
    cases List.mem_singleton.1 (SortedMap.get?_eq_some_iff.1 hp)
    obtain rfl := List.mem_singleton.1 hpath
    decide
  proper_listed root directory listed _ hlisted path h := by
    cases hlisted
    obtain ⟨start, p, hp, hpath⟩ := h
    cases List.mem_singleton.1 (SortedMap.get?_eq_some_iff.1 hp)
    obtain rfl := List.mem_singleton.1 hpath
    decide

end Sample

theorem discovered_in_solution_sample :
  Sample.discovery.Regular Solver.Sample.home ∧
    Sample.discovery.discover Solver.Sample.home 2
      = some ⟨.ok Sample.data, [Solver.Sample.alpha, Solver.Sample.beta], Sample.log⟩ ∧
    (Sample.discovery.solver Solver.Sample.solver.analyzer).solve
      (Sample.data.problem Solver.Sample.home) 2 = some ⟨.ok Solver.Sample.chosen, []⟩ ∧
    Sample.data.dependencies.get? Solver.Sample.beta = some ["y.io/b/lib"] ∧
    ∃ q ∈ Solver.Sample.chosen, q.root = Solver.Sample.beta ∧
      ∀ path ∈ ["y.io/b/lib"], Solver.Sample.beta.relative path ∈ q.packages
  := by
  have hproblem : Sample.data.problem Solver.Sample.home = Solver.Sample.problem := by cbv
  have hsolve : (Sample.discovery.solver Solver.Sample.solver.analyzer).solve
      (Sample.data.problem Solver.Sample.home) 2 = some ⟨.ok Solver.Sample.chosen, []⟩ := by
    rw [hproblem]
    apply Solver.Sample.solve_problem
  use Sample.regular, Sample.discover_home, hsolve, rfl
  apply discovered_in_solution Sample.regular Sample.discover_home hsolve rfl

end Discovery
end DepLock
