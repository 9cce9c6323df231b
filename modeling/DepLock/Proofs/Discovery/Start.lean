import DepLock.Proofs.Discovery.Coverage
import DepLock.Proofs.Solve.Kept

/-!
# The start that discovery gives

The first lock has the projects that are on disk, at their versions on disk, with the packages that
are used from them. The first manifest constrains only such projects, and only to what admits these
versions. So a solve that starts from the two keeps the version of every project to which no other
checkout objects.
-/

namespace DepLock

namespace ProjectData

variable {data : ProjectData} {root : ProjectRoot} {q : LockedProject} {paths : List String}

/-- The entry that the first lock has for a project on disk. -/
def entry (data : ProjectData) (root : ProjectRoot) (version : Version) : LockedProject :=
  .of ⟨root, none⟩ version (((data.dependencies.get? root).getD []).map root.relative)

theorem distinct_entries (data : ProjectData) :
  (data.onDisk.toList.map fun e => data.entry e.1 e.2).Pairwise fun q r => q.root ≠ r.root
  := by
  rw [List.pairwise_map]
  apply data.onDisk.increasing.imp
  intro e e' hlt heq
  have hsame : e.1 = e'.1 := heq
  simp [hsame] at hlt

theorem projects_lock (data : ProjectData) :
  data.lock.projects = data.onDisk.toList.map fun e => data.entry e.1 e.2
  := Lock.projects_ofProjects data.distinct_entries

/-- The first lock has an entry for each project on disk, and no others. -/
theorem mem_projects_lock :
  q ∈ data.lock.projects ↔ ∃ v, data.onDisk.get? q.root = some v ∧ q = data.entry q.root v
  := by
  rw [projects_lock, List.mem_map]
  constructor
  · rintro ⟨⟨root, v⟩, hmem, rfl⟩
    exact ⟨v, SortedMap.get?_eq_some_iff.2 hmem, rfl⟩
  · rintro ⟨v, hv, heq⟩
    exact ⟨(q.root, v), SortedMap.get?_eq_some_iff.1 hv, heq.symm⟩

theorem get?_lock {v : Version} (hv : data.onDisk.get? root = some v) :
  data.lock.get? root = some (data.entry root v)
  := Lock.get?_ofProjects data.distinct_entries
    (List.mem_map.2 ⟨(root, v), SortedMap.get?_eq_some_iff.1 hv, rfl⟩)

end ProjectData

/-- Taking names relative to a root and sorting them loses no path. -/
theorem perm_map_absolute {root : ProjectRoot} {paths : List String} (hnodup : paths.Nodup)
    (hpaths : ∀ path ∈ paths, root.contains path = true ∧ ImportPath.IsProper path) :
  ((sortDedup (paths.map root.relative)).map root.absolute).Perm paths
  := by
  have hback : ∀ path ∈ paths, root.absolute (root.relative path) = path := by
    intro path hpath
    obtain ⟨hcontains, hproper⟩ := hpaths path hpath
    apply ProjectRoot.absolute_relative hcontains hproper
  have hrels : (sortDedup (paths.map root.relative)).Nodup := by
    apply (increasing_sortDedup _).imp
    rintro rel rel' hlt rfl
    simp at hlt
  rw [List.perm_ext_iff_of_nodup _ hnodup]
  · intro path
    simp only [List.mem_map, mem_sortDedup, exists_exists_and_eq_and]
    constructor
    · rintro ⟨path', hpath', rfl⟩
      rw [hback path' hpath']
      apply hpath'
    · intro hpath
      exact ⟨path, hpath, hback path hpath⟩
  · apply List.Nodup.map_on _ hrels
    intro rel hrel rel' hrel' heq
    obtain ⟨path, hpath, rfl⟩ := List.mem_map.1 (mem_sortDedup.1 hrel)
    obtain ⟨path', hpath', rfl⟩ := List.mem_map.1 (mem_sortDedup.1 hrel')
    rw [hback path hpath, hback path' hpath'] at heq
    rw [heq]

/-- Whether the first lock and the first manifest fit what was discovered. -/
structure ProjectData.StartsSatisfied (data : ProjectData) : Prop where
  /-- The locked projects are those on disk, each once. -/
  roots : data.lock.projects.map (·.root) = data.onDisk.keys
  unsourced : ∀ q ∈ data.lock.projects, q.id.source = none
  version : ∀ q ∈ data.lock.projects, data.onDisk.get? q.root = some q.version
  /-- The locked packages of a project are those that are used from it. -/
  packages : ∀ q ∈ data.lock.projects, q.packages ≠ [] ∧ ∃ paths,
    data.dependencies.get? q.root = some paths ∧ (q.packages.map q.root.absolute).Perm paths
  /-- Constraints are on locked projects and admit the locked versions. -/
  constraints : ∀ root rule, data.manifest.constraints.get? root = some rule →
    ∃ q ∈ data.lock.projects, q.root = root ∧ rule.constraint.admits q.version = true
  overrides : data.manifest.overrides = ∅

namespace Discovery

variable {d : Discovery} {tree : PackageTree} {budget : Nat} {data : ProjectData}
  {synced : List ProjectRoot} {log : Log} {root : ProjectRoot}

/-- What discovery records for a project on disk is used from it, and there is something. -/
theorem exists_paths_of_onDisk (hdata : d.discover tree budget = some ⟨.ok data, synced, log⟩)
    {v : Version} (hv : data.onDisk.get? root = some v) :
  ∃ paths, data.dependencies.get? root = some paths ∧ paths.Nodup ∧ paths ≠ [] ∧
    ∀ path ∈ paths, d.Uses tree.projectRoot (directImports tree) root path
  := by
  have hrecorded : ∃ paths, data.dependencies.get? root = some paths ∧ paths.Nodup := by
    obtain ⟨w, hw, rfl, -⟩ := explored_of_discover hdata
    have honDisk : w.data.onDisk.contains root = true := SortedMap.contains_of_get? hv
    have hdependency : w.data.normalize.dependencies.contains root = true := by
      rw [ProjectData.contains_normalize, hw.located, honDisk, Bool.true_or]
    obtain ⟨paths, hpaths⟩ := SortedMap.contains_iff.1 hdependency
    use paths, hpaths
    apply (ProjectData.get?_normalize hpaths).1.imp
    rintro path path' hlt rfl
    simp at hlt
  obtain ⟨paths, hpaths, hnodup⟩ := hrecorded
  obtain ⟨hne, huses⟩ := uses_of_discover hdata hpaths
  exact ⟨paths, hpaths, hnodup, hne, huses⟩

/-- A discovered rule admits the version on disk. -/
theorem exists_onDisk_of_rule (hdata : d.discover tree budget = some ⟨.ok data, synced, log⟩)
    {rule : ProjectRule} (hrule : data.constraints.get? root = some rule) :
  ∃ v, data.onDisk.get? root = some v ∧ rule.constraint.admits v = true
  := by
  obtain ⟨w, hw, rfl, -⟩ := explored_of_discover hdata
  have hrule' : w.data.constraints.get? root = some rule := hrule
  rw [hw.rules] at hrule'
  split at hrule'
  next =>
    obtain ⟨v, hv, himplied⟩ := Option.bind_eq_some_iff.1 hrule'
    obtain ⟨c, hc, rfl⟩ := ProjectRule.ofVersion?_eq_some_iff.1 himplied
    use v, hv, Constraint.admits_of_ofVersion? hc
  next => cases hrule'

theorem startsSatisfied (hrooted : d.Rooted tree)
    (hdata : d.discover tree budget = some ⟨.ok data, synced, log⟩) :
  data.StartsSatisfied
  where
  roots := by
    rw [ProjectData.projects_lock, List.map_map]
    rfl
  unsourced := by
    intro q hq
    obtain ⟨v, -, heq⟩ := ProjectData.mem_projects_lock.1 hq
    rw [heq]
    rfl
  version := by
    intro q hq
    obtain ⟨v, hv, heq⟩ := ProjectData.mem_projects_lock.1 hq
    rw [hv, heq]
    rfl
  packages := by
    intro q hq
    obtain ⟨v, hv, heq⟩ := ProjectData.mem_projects_lock.1 hq
    obtain ⟨paths, hpaths, hnodup, hne, huses⟩ := exists_paths_of_onDisk hdata hv
    have hperm : ((data.entry q.root v).packages.map q.root.absolute).Perm paths := by
      rw [ProjectData.entry, hpaths]
      apply perm_map_absolute hnodup
      intro path hpath
      obtain ⟨hreached, -, howned⟩ := huses path hpath
      use hrooted.contains path q.root howned, hrooted.proper_of_reached hreached
    rw [← heq] at hperm
    constructor
    · intro hempty
      rw [hempty, List.map_nil, List.nil_perm] at hperm
      apply hne hperm
    · use paths
  constraints := by
    intro root rule hrule
    obtain ⟨v, hv, hadmits⟩ := exists_onDisk_of_rule hdata hrule
    exact ⟨data.entry root v, ProjectData.mem_projects_lock.2 ⟨v, hv, rfl⟩, rfl, hadmits⟩
  overrides := rfl

/-- Whatever a solver starts from the discovered manifest and lock, only other checkouts may object
to a version on disk. -/
theorem unopposed_of_discover (hdata : d.discover tree budget = some ⟨.ok data, synced, log⟩)
    {sv : Solver} {p : SolveProblem} (hmanifest : p.manifest = data.manifest)
    {among : ProjectRoot → Prop} {v : Version} (hv : data.onDisk.get? root = some v)
    (hdeclared : ∀ dep rule, among dep → dep ≠ root → sv.Declares dep root rule →
      rule.constraint.admits v = true) :
  sv.Unopposed p among root v
  where
  override rule hrule := by
    rw [hmanifest] at hrule
    cases hrule
  constraint _ rule hrule := by
    rw [hmanifest] at hrule
    obtain ⟨v', hv', hadmits⟩ := exists_onDisk_of_rule hdata hrule
    rw [hv] at hv'
    cases hv'
    apply hadmits
  declared _ := hdeclared

/-- Discovery gives a satisfied start, and a solve from it keeps each version on disk to which no
other checkout objects: a solution has the project at this version, and no failure is over it. -/
theorem satisfied_start (hrooted : d.Rooted tree)
    (hdata : d.discover tree budget = some ⟨.ok data, synced, log⟩) :
  data.StartsSatisfied ∧
    ∀ (sv : Solver) (p : SolveProblem), p.manifest = data.manifest → p.lock = data.lock →
      ∀ root v, data.onDisk.get? root = some v → ∀ solveBudget solveLog,
        (∀ solution, sv.solve p solveBudget = some ⟨.ok solution, solveLog⟩ →
          (∀ q ∈ solution, q.root ≠ root → ∀ rule, sv.Declares q.root root rule →
            rule.constraint.admits v = true) →
          ∃ q ∈ solution, q.root = root ∧ q.version = v) ∧
        ∀ error, sv.solve p solveBudget = some ⟨.error error, solveLog⟩ →
          (∀ dep, dep ≠ root → ∀ rule, sv.Declares dep root rule →
            rule.constraint.admits v = true) →
          ¬ error.IsAbout root
  := by
  use startsSatisfied hrooted hdata
  intro sv p hmanifest hlock root v hv solveBudget solveLog
  have hlocked : p.lock.get? root = some (data.entry root v) := by
    rw [hlock, ProjectData.get?_lock hv]
  constructor
  · intro solution hsolve hdeclared
    apply Solver.exists_kept hsolve hlocked
    apply unopposed_of_discover hdata hmanifest hv
    rintro dep rule ⟨q, hq, rfl⟩ hother hrule
    apply hdeclared q hq hother rule hrule
  · intro error hsolve hdeclared
    apply Solver.not_isAbout_of_error hsolve hlocked
    apply unopposed_of_discover hdata hmanifest hv
    intro dep rule _ hother hrule
    apply hdeclared dep hother rule hrule

theorem satisfied_start_sample :
  Sample.discovery.Rooted Solver.Sample.home ∧
    Sample.discovery.discover Solver.Sample.home 2
      = some ⟨.ok Sample.data, [Solver.Sample.alpha, Solver.Sample.beta], Sample.log⟩ ∧
    Sample.data.StartsSatisfied ∧
    Sample.data.lock.projects = [⟨⟨Solver.Sample.alpha, none⟩, Solver.Sample.new, ["."]⟩] ∧
    Solver.Sample.solver.solve Solver.Sample.problem 2 = some ⟨.ok Solver.Sample.chosen, []⟩ ∧
    ∃ q ∈ Solver.Sample.chosen, q.root = Solver.Sample.alpha ∧ q.version = Solver.Sample.new
  := by
  have hrooted := Sample.regular.rooted
  obtain ⟨hsatisfied, hkeeps⟩ := satisfied_start hrooted Sample.discover_home
  have hmanifest : Solver.Sample.problem.manifest = Sample.data.manifest := rfl
  have hlock : Solver.Sample.problem.lock = Sample.data.lock := by cbv
  obtain ⟨hkept, -⟩ := hkeeps Solver.Sample.solver Solver.Sample.problem hmanifest hlock
    Solver.Sample.alpha Solver.Sample.new rfl 2 []
  refine ⟨hrooted, Sample.discover_home, hsatisfied, by cbv, Solver.Sample.solve_problem, ?_⟩
  apply hkept Solver.Sample.chosen Solver.Sample.solve_problem
  -- the only other project of the solution is not checked out
  rintro q hq hother rule ⟨directory, manifest, lock, hdirectory, -⟩
  apply absurd hother
  rw [not_not]
  apply List.mem_singleton.1 (Sample.mem_of_directory _)
  rw [show Sample.discovery.workspace = Solver.Sample.solver.workspace from rfl, hdirectory]
  exact Option.some_ne_none _

end Discovery
end DepLock
