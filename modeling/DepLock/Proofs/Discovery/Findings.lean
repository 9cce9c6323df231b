import DepLock.Proofs.Discovery.Coverage

/-!
# What discovery finds

Discovery records the reached packages of other projects, each under the project that owns it and
none beside them, except that a package which is missing in a usable checkout is left out unless it
is imported directly. The projects with recorded packages are partitioned into those on disk, at the
version that the workspace knows, and those that are not, which are the ones without a usable
checkout; and the rules are those that the versions of direct dependencies on disk imply.
-/

namespace DepLock.Discovery

variable {d : Discovery} {tree : PackageTree} {budget : Nat} {data : ProjectData}
  {synced : List ProjectRoot} {log : Log}

/-- Whether a package is one to record for a project: it is reached, it lies outside the project that
is looked at, and it is imported directly, or the project that owns it has no usable checkout, or it
is usable. -/
structure Counts (d : Discovery) (tree : PackageTree) (root : ProjectRoot) (path : String) :
    Prop where
  reached : d.Reached tree.projectRoot (directImports tree) path
  outside : tree.projectRoot.contains path = false
  owned : d.sources.deduceRoot path = .ok root
  reason : path ∈ directImports tree ∨ d.checkoutAt root = none ∨ d.Usable path

theorem Explored.counts_iff {w : Walk} {root : ProjectRoot} {path : String}
    (h : d.Explored tree.projectRoot (directImports tree) w) :
  w.data.Records root path ↔ d.Counts tree root path
  := by
  rw [h.records_iff]
  constructor
  · rintro ⟨⟨hreached, houtside, howned⟩, hreason⟩
    exact ⟨hreached, houtside, howned, hreason⟩
  · rintro ⟨hreached, houtside, howned, hreason⟩
    exact ⟨⟨hreached, houtside, howned⟩, hreason⟩

/-- Discovery finds exactly the reachable packages: for each project it lists in increasing order
those that count, and it has an entry for a project exactly when there are any. -/
theorem recorded_packages (h : d.discover tree budget = some ⟨.ok data, synced, log⟩)
    (root : ProjectRoot) :
  (∀ paths, data.dependencies.get? root = some paths →
      (paths.Pairwise fun a b => compare a b = .lt) ∧
        ∀ path, path ∈ paths ↔ d.Counts tree root path) ∧
    (data.dependencies.contains root = true ↔ ∃ path, d.Counts tree root path)
  := by
  obtain ⟨w, hw, rfl, -⟩ := explored_of_discover h
  constructor
  · intro paths hpaths
    obtain ⟨hincreasing, hrecords⟩ := ProjectData.get?_normalize hpaths
    use hincreasing
    intro path
    rw [hrecords, hw.counts_iff]
  · rw [ProjectData.contains_normalize, hw.contains_dependencies_iff]
    simp only [hw.counts_iff]

/-- In the sample workspace, `y.io/b/lib` is recorded for a project that is not checked out. -/
theorem recorded_packages_sample :
  Sample.discovery.discover Solver.Sample.home 2
      = some ⟨.ok Sample.data, [Solver.Sample.alpha, Solver.Sample.beta], Sample.log⟩ ∧
    Sample.data.dependencies.get? Solver.Sample.beta = some ["y.io/b/lib"] ∧
    ∀ path, path ∈ ["y.io/b/lib"] ↔
      Sample.discovery.Counts Solver.Sample.home Solver.Sample.beta path
  := by
  use Sample.discover_home, rfl
  obtain ⟨hpaths, -⟩ := recorded_packages Sample.discover_home Solver.Sample.beta
  apply (hpaths ["y.io/b/lib"] rfl).2

/-- Whether the projects of discovered data are classified consistently. -/
structure Partitioned (d : Discovery) (tree : PackageTree) (data : ProjectData) : Prop where
  /-- No project is both on disk and not. -/
  disjoint : ∀ root, data.onDisk.contains root = true → data.notOnDisk.contains root = false
  /-- The dependencies are the projects that are on disk and those that are not. -/
  covering : ∀ root, data.dependencies.contains root = true ↔
    data.onDisk.contains root = true ∨ data.notOnDisk.contains root = true
  /-- Projects that are imported directly are dependencies. -/
  direct_subset : ∀ root, data.direct.contains root = true →
    data.dependencies.contains root = true
  /-- The projects that are imported directly are those of the direct imports. -/
  direct_iff : ∀ root, data.direct.contains root = true ↔
    ∃ path ∈ directImports tree, d.sources.deduceRoot path = .ok root
  /-- A dependency is not on disk when it has no directory, no known version, or a directory that
  cannot be listed. -/
  notOnDisk_iff : ∀ root, data.dependencies.contains root = true →
    (data.notOnDisk.contains root = true ↔
      d.workspace.directory? root = none ∨ (∀ v, d.workspace.version root ≠ .resolved v) ∨
        ∃ directory e, d.workspace.directory? root = some directory ∧
          d.lister directory root.text = .error e)
  /-- A project on disk is at the version that the workspace knows. -/
  version : ∀ root v, data.onDisk.get? root = some v → d.workspace.version root = .resolved v
  /-- The rules are those that the versions of direct dependencies on disk imply. -/
  constraints_iff : ∀ root rule, data.constraints.get? root = some rule ↔
    data.direct.contains root = true ∧ ∃ v c, data.onDisk.get? root = some v ∧
      Constraint.ofVersion? v = some c ∧ rule = { constraint := c, source := none }

/-- Discovery classifies the projects that it finds consistently. -/
theorem partitioned_of_discover (h : d.discover tree budget = some ⟨.ok data, synced, log⟩) :
  d.Partitioned tree data
  := by
  obtain ⟨w, hw, rfl, -⟩ := explored_of_discover h
  constructor
  · apply hw.disjoint
  · intro root
    rw [ProjectData.contains_normalize, hw.located, Bool.or_eq_true]
    rfl
  · intro root hdirect
    rw [ProjectData.contains_normalize]
    apply (hw.directly root hdirect).1
  · intro root
    apply hw.contains_direct_iff
  · intro root hdependency
    rw [ProjectData.contains_normalize] at hdependency
    rw [← checkoutAt_eq_none_iff]
    change w.data.notOnDisk.contains root = true ↔ _
    rw [hw.contains_notOnDisk_iff, and_iff_right hdependency]
  · apply hw.onDisk
  · intro root rule
    change w.data.constraints.get? root = some rule ↔ w.data.direct.contains root = true ∧
      ∃ v c, w.data.onDisk.get? root = some v ∧ _
    rw [hw.rules]
    by_cases hdirect : w.data.direct.contains root = true
    · simp only [hdirect, if_true, true_and, Option.bind_eq_some_iff,
        ProjectRule.ofVersion?_eq_some_iff, exists_and_left]
    · simp [hdirect]

theorem partitioned_of_discover_sample :
  Sample.discovery.discover Solver.Sample.home 2
      = some ⟨.ok Sample.data, [Solver.Sample.alpha, Solver.Sample.beta], Sample.log⟩ ∧
    Sample.discovery.Partitioned Solver.Sample.home Sample.data
  := ⟨Sample.discover_home, partitioned_of_discover Sample.discover_home⟩

end DepLock.Discovery
