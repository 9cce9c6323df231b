import DepLock.Discovery.Walk
import DepLock.Proofs.Package.Reach
import Mathlib.Logic.Relation

/-!
# The graph that a walk goes through

The nodes are packages. A package is `Usable` when the project that owns it has a usable checkout in
which the package can be reached, and from a usable package outside the project itself the walk
`Follows` the imports that lie neither in its own project nor in the standard library. A package is
`Reached` when it is imported directly or followed to from a reached one.
-/

namespace DepLock.Discovery

variable {d : Discovery} {home root : ProjectRoot} {direct direct' : List String}
  {path start : String} {c : Checkout}

/-! ### Usable checkouts -/

/-- The usable checkout of a project: its version is known and its packages can be listed. -/
def checkoutAt (d : Discovery) (root : ProjectRoot) : Option Checkout :=
  match d.workspace.directory? root, (d.workspace.version root).version? with
  | some directory, some version =>
    match d.lister directory root.text with
    | .ok tree =>
      let (reach, faults) := tree.reach { mains := true, tests := false, propagate := false }
      some { version, reach, faults }
    | .error _ => none
  | _, _ => none

theorem version?_eq_some_iff {v : OnDiskVersion} {version : Version} :
  v.version? = some version ↔ v = .resolved version
  := by
  cases v with
  | resolved version' => simp [OnDiskVersion.version?]
  | absent => simp [OnDiskVersion.version?]
  | unknown reason => simp [OnDiskVersion.version?]

theorem checkoutAt_eq_some_iff :
  d.checkoutAt root = some c ↔ ∃ directory version tree,
    d.workspace.directory? root = some directory ∧ d.workspace.version root = .resolved version ∧
    d.lister directory root.text = .ok tree ∧ c = ⟨version, tree.importReach,
      (tree.reach { mains := true, tests := false, propagate := false }).2⟩
  := by
  rw [checkoutAt]
  constructor
  · intro h
    split at h
    next directory version hdirectory hversion =>
      split at h
      next tree htree =>
        cases h
        exact ⟨directory, version, tree, hdirectory, version?_eq_some_iff.1 hversion, htree, rfl⟩
      next => cases h
    next => cases h
  · rintro ⟨directory, version, tree, hdirectory, hversion, htree, rfl⟩
    simp only [hdirectory, hversion, OnDiskVersion.version?, htree]
    rfl

/-- A usable checkout is at the version that the workspace knows. -/
theorem version_of_checkoutAt (hc : d.checkoutAt root = some c) :
  d.workspace.version root = .resolved c.version
  := by
  obtain ⟨_, version, _, _, hversion, _, rfl⟩ := checkoutAt_eq_some_iff.1 hc
  apply hversion

/-- A project without a directory, without a known version, or with a directory that cannot be
listed has no usable checkout, and only such a project has none. -/
theorem checkoutAt_eq_none_iff :
  d.checkoutAt root = none ↔
    d.workspace.directory? root = none ∨ (∀ v, d.workspace.version root ≠ .resolved v) ∨
      ∃ directory e, d.workspace.directory? root = some directory ∧
        d.lister directory root.text = .error e
  := by
  constructor
  · intro hnone
    by_contra hother
    rw [not_or, not_or] at hother
    obtain ⟨hdirectory, hversion, hlisted⟩ := hother
    obtain ⟨directory, hdirectory⟩ := Option.ne_none_iff_exists'.1 hdirectory
    obtain ⟨version, hversion⟩ := not_forall_not.1 hversion
    cases htree : d.lister directory root.text with
    | error e => exact hlisted ⟨directory, e, hdirectory, htree⟩
    | ok tree =>
      have hsome := checkoutAt_eq_some_iff.2
        ⟨directory, version, tree, hdirectory, hversion, htree, rfl⟩
      rw [hnone] at hsome
      cases hsome
  · intro h
    rw [Option.eq_none_iff_forall_ne_some]
    intro c hc
    obtain ⟨directory, version, tree, hdirectory, hversion, htree, -⟩ :=
      checkoutAt_eq_some_iff.1 hc
    rcases h with hnone | hunknown | ⟨directory', e, hdirectory', hfault⟩
    · rw [hdirectory] at hnone
      cases hnone
    · apply hunknown version hversion
    · rw [hdirectory] at hdirectory'
      cases hdirectory'
      rw [htree] at hfault
      cases hfault

/-! ### Packages and their imports -/

/-- Whether the project that owns a package has a usable checkout in which the package can be
reached. -/
def Usable (d : Discovery) (path : String) : Prop :=
  ∃ root c, d.sources.deduceRoot path = .ok root ∧ d.checkoutAt root = some c ∧
    c.reach.contains path = true

/-- Whether a usable package imports a path, by itself or through packages of its project, that
lies neither in its project nor in the standard library. -/
def Imports (d : Discovery) (start path : String) : Prop :=
  ∃ root c e, d.sources.deduceRoot start = .ok root ∧ d.checkoutAt root = some c ∧
    c.reach.get? start = some e ∧ path ∈ e.external ∧ ImportPath.isStandard path = false

/-- Whether a walk goes on from a package, which lies outside the project itself, to a path. -/
structure Follows (d : Discovery) (home : ProjectRoot) (start path : String) : Prop where
  outside : home.contains start = false
  imports : d.Imports start path

/-- No package of a usable checkout that can be reached is at fault, so all their imports are
followed. -/
theorem imports?_eq_some_iff (hc : d.checkoutAt root = some c) {imports : List String} :
  Checkout.imports? c path = some imports ↔ ∃ e, c.reach.get? path = some e ∧
    imports = e.external.filter fun i => !ImportPath.isStandard i
  := by
  obtain ⟨_, version, tree, _, _, _, rfl⟩ := checkoutAt_eq_some_iff.1 hc
  rw [Checkout.imports?]
  cases he : tree.importReach.get? path with
  | none => simp
  | some e =>
    have hfault := PackageTree.not_fault_of_reach he
    simp [hfault, eq_comm]

theorem imports?_eq_none_iff (hc : d.checkoutAt root = some c) :
  Checkout.imports? c path = none ↔ c.reach.contains path = false
  := by
  rw [SortedMap.contains_eq_false_iff, Option.eq_none_iff_forall_ne_some,
    Option.eq_none_iff_forall_ne_some]
  simp only [ne_eq, imports?_eq_some_iff hc]
  grind

/-- What is imported from a package of a usable checkout is an external import of its tree. -/
theorem Imports.listed (h : d.Imports start path) (hroot : d.sources.deduceRoot start = .ok root) :
  ∃ directory tree e, d.workspace.directory? root = some directory ∧
    d.lister directory root.text = .ok tree ∧ tree.importReach.get? start = some e ∧
    path ∈ e.external ∧ ImportPath.isStandard path = false
  := by
  obtain ⟨root', c, e, hroot', hc, he, hpath, hstandard⟩ := h
  rw [hroot] at hroot'
  cases hroot'
  obtain ⟨directory, version, tree, hdirectory, -, htree, rfl⟩ := checkoutAt_eq_some_iff.1 hc
  exact ⟨directory, tree, e, hdirectory, htree, he, hpath, hstandard⟩

theorem Imports.owned (h : d.Imports start path) :
  ∃ root, d.sources.deduceRoot start = .ok root
  := by
  obtain ⟨root, _, _, hroot, -⟩ := h
  exact ⟨root, hroot⟩

/-- The packages that a walk from the direct imports of a project comes to. -/
inductive Reached (d : Discovery) (home : ProjectRoot) (direct : List String) : String → Prop where
  | direct {path : String} : path ∈ direct → Reached d home direct path
  | imported {start path : String} :
      Reached d home direct start → d.Follows home start path → Reached d home direct path

/-- Whether a reached package outside the project itself is one of another project. -/
structure Uses (d : Discovery) (home : ProjectRoot) (direct : List String) (root : ProjectRoot)
    (path : String) : Prop where
  reached : d.Reached home direct path
  outside : home.contains path = false
  owned : d.sources.deduceRoot path = .ok root

/-- What a tree imports directly is imported by its packages and lies outside. -/
theorem outside_of_mem_directImports {tree : PackageTree} (h : path ∈ directImports tree) :
  tree.Imports path ∧ tree.projectRoot.contains path = false
  := by
  obtain ⟨⟨start, e, he, hpath⟩, -⟩ := ReachMap.mem_externalImports.1 h
  apply PackageTree.external_of_reach he hpath

end DepLock.Discovery
