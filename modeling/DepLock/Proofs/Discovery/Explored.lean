import DepLock.Proofs.Discovery.Underway

/-!
# What a walk ends with

A walk that does not fail has dealt with every reached package: it is `Explored`. Everything that it
has found then is determined by the imports and the workspace, whatever the order in which it went:
the recorded paths, the projects that are on disk and those that are not, the direct ones, the rules,
and the projects to synchronize.
-/

namespace DepLock.Discovery

open Relation

variable {d : Discovery} {home root : ProjectRoot} {direct paths : List String} {path : String}
  {w w' : Walk} {log : Log}

/-- A walk that has dealt with every reached package, none of which lies on an import cycle. -/
structure Explored (d : Discovery) (home : ProjectRoot) (direct : List String) (w : Walk) : Prop
    extends d.Consistent home direct w where
  classified : ∀ p ∈ direct, d.Classified w p
  entered : ∀ p, d.Reached home direct p → home.contains p = false → d.Entered w p
  acyclic : ∀ p, d.Reached home direct p → ¬ TransGen (d.Follows home) p p

/-- How a walk over all direct imports may end: everything is explored, or it fails for a reason. -/
def Concludes (d : Discovery) (home : ProjectRoot) (direct : List String) :
    Except WalkFailure Walk → Prop
  | .ok w => d.Explored home direct w
  | .error f => d.Obstructs home direct f.error

/-- When all direct imports are black and the walk is in no package, every reached package is
black. -/
theorem Underway.black_of_reached (h : d.Underway home direct [] w)
    (hdirect : ∀ p ∈ direct, w.colors.get? p = some .black) (hpath : d.Reached home direct path) :
  w.colors.get? path = some .black
  := by
  induction hpath with
  | direct hpath => apply hdirect _ hpath
  | imported _ hfollows ih => apply h.closed _ _ ih hfollows

theorem Underway.explored (h : d.Underway home direct [] w)
    (hclassified : ∀ p ∈ direct, d.Classified w p)
    (hblack : ∀ p ∈ direct, w.colors.get? p = some .black) :
  d.Explored home direct w
  where
  toConsistent := h.toConsistent
  classified := hclassified
  entered p hp := h.entered p .black (h.black_of_reached hblack hp)
  acyclic p hp := h.acyclic p (h.black_of_reached hblack hp)

/-- A walk over the direct imports, in any order and along any itinerary, explores everything or
fails for a reason. -/
theorem concludes_of_walkAlong {i : Itinerary} {budget : Nat} (hpaths : ∀ p, p ∈ paths ↔ p ∈ direct)
    (hhome : ∀ p ∈ direct, home.contains p = false) {r : Except WalkFailure Walk}
    (hr : d.walkAlong i home paths budget { log } = some r) :
  d.Concludes home direct r
  := by
  have hclassify := (Classifying.empty d home direct log).classifyAll
    fun p hp => ⟨(hpaths p).1 hp, hhome p ((hpaths p).1 hp)⟩
  unfold walkAlong at hr
  split at hr
  next f hf =>
    cases hr
    rw [hf] at hclassify
    obtain ⟨p, hp, cause, hroot, herror⟩ := hclassify
    have hdirect := (hpaths p).1 hp
    rw [Concludes, herror]
    apply Obstructs.deduceRoot (.direct hdirect) (hhome p hdirect) hroot
  next v hv =>
    rw [hv] at hclassify
    obtain ⟨hclassifying, -, hclassified⟩ := hclassify
    have hvisited : d.Visited home direct [] paths v r := by
      apply (Underway.of_classifying hclassifying).visitEach _ hr
      intro w p r hp hw hvisit
      apply hw.visitAlong (.direct ((hpaths p).1 hp)) _ hvisit
      simp
    cases r with
    | error f => apply hvisited
    | ok w =>
      obtain ⟨hunderway, hgrows, hblack⟩ := hvisited
      apply hunderway.explored
      · intro p hp
        apply (hclassified p ((hpaths p).2 hp)).mono hgrows
      · intro p hp
        apply hblack p ((hpaths p).2 hp)

/-- A walk fails exactly when there is a reason. -/
theorem Concludes.succeeds_iff {r : Except WalkFailure Walk} (h : d.Concludes home direct r) :
  (∃ w, r = .ok w) ↔ ∀ e, ¬ d.Obstructs home direct e
  := by
  constructor
  · rintro ⟨w, rfl⟩ e hobstructs
    rw [Concludes] at h
    cases hobstructs with
    | importCycle hpath hcycle => apply h.acyclic _ hpath hcycle
    | deduceRoot hpath houtside hcause =>
      obtain ⟨root, hroot, -⟩ := h.entered _ hpath houtside
      rw [hcause] at hroot
      cases hroot
  · intro hnone
    cases r with
    | ok w => exact ⟨w, rfl⟩
    | error f => apply absurd h (hnone f.error)

namespace Explored

/-- The recorded paths of a project are its reached packages, except for those that are missing in
its usable checkout and not imported directly. -/
theorem records_iff (h : d.Explored home direct w) :
  w.data.Records root path ↔ d.Uses home direct root path ∧
    (path ∈ direct ∨ d.checkoutAt root = none ∨ d.Usable path)
  := by
  constructor
  · intro hrecords
    exact ⟨h.toSound.uses hrecords, h.justified root path hrecords⟩
  · rintro ⟨huses, hreason⟩
    -- a direct import is recorded when it is classified, all others when they are entered
    obtain ⟨root', hroot', -, hnone, husable⟩ := h.entered path huses.reached huses.outside
    rw [huses.owned] at hroot'
    cases hroot'
    rcases hreason with hdirect | hcheckout | hpath
    · obtain ⟨root', hroot', -, hrecords⟩ := h.classified path hdirect
      rw [huses.owned] at hroot'
      cases hroot'
      apply hrecords
    · apply (hnone hcheckout).2
    · apply husable hpath

/-- A project is a dependency when a path is recorded for it. -/
theorem contains_dependencies_iff (h : d.Explored home direct w) :
  w.data.dependencies.contains root = true ↔ ∃ path, w.data.Records root path
  := by
  constructor
  · apply h.toSound.exists_records
  · rintro ⟨path, hpath⟩
    apply hpath.contains

/-- A dependency is not on disk when it has no usable checkout. -/
theorem contains_notOnDisk_iff (h : d.Explored home direct w) :
  w.data.notOnDisk.contains root = true ↔
    w.data.dependencies.contains root = true ∧ d.checkoutAt root = none
  := by
  constructor
  · intro hmarked
    use by rw [h.located, hmarked, Bool.or_true]
    apply h.unusable root hmarked
  · rintro ⟨hdependency, hnone⟩
    obtain ⟨path, hpath⟩ := h.toSound.exists_records hdependency
    have huses := h.toSound.uses hpath
    obtain ⟨root', hroot', -, hmarked, -⟩ := h.entered path huses.reached huses.outside
    rw [huses.owned] at hroot'
    cases hroot'
    apply (hmarked hnone).1

/-- A dependency is on disk, at the version of its usable checkout, when it has one. -/
theorem get?_onDisk_iff (h : d.Explored home direct w) {v : Version} :
  w.data.onDisk.get? root = some v ↔
    w.data.dependencies.contains root = true ∧ ∃ c, d.checkoutAt root = some c ∧ c.version = v
  := by
  constructor
  · intro hv
    have honDisk := SortedMap.contains_of_get? hv
    have hdependency : w.data.dependencies.contains root = true := by
      rw [h.located, honDisk, Bool.true_or]
    use hdependency
    cases hc : d.checkoutAt root with
    | none =>
      have hmarked := h.contains_notOnDisk_iff.2 ⟨hdependency, hc⟩
      rw [h.disjoint root honDisk] at hmarked
      cases hmarked
    | some c =>
      have hversion := h.onDisk root v hv
      rw [version_of_checkoutAt hc] at hversion
      cases hversion
      exact ⟨c, rfl, rfl⟩
  · rintro ⟨hdependency, c, hc, rfl⟩
    rw [h.located, h.not_marked hc, Bool.or_false] at hdependency
    obtain ⟨v, hv⟩ := SortedMap.contains_iff.1 hdependency
    have hversion := h.onDisk root v hv
    rw [version_of_checkoutAt hc] at hversion
    cases hversion
    apply hv

/-- The direct dependencies are the projects of direct imports. -/
theorem contains_direct_iff (h : d.Explored home direct w) :
  w.data.direct.contains root = true ↔ ∃ p ∈ direct, d.sources.deduceRoot p = .ok root
  := by
  constructor
  · intro hdirect
    apply (h.directly root hdirect).2
  · rintro ⟨p, hp, hroot⟩
    obtain ⟨root', hroot', hdirect, -⟩ := h.classified p hp
    rw [hroot] at hroot'
    cases hroot'
    apply hdirect

/-- The projects to synchronize are those of the reached packages. -/
theorem mem_synced_iff (h : d.Explored home direct w) :
  root ∈ w.synced ↔ ∃ p, d.Uses home direct root p
  := by
  constructor
  · apply h.dispatched root
  · rintro ⟨p, huses⟩
    obtain ⟨root', hroot', hsynced, -⟩ := h.entered p huses.reached huses.outside
    rw [huses.owned] at hroot'
    cases hroot'
    apply hsynced

/-- Two walks that have explored everything have found the same. -/
theorem normalize_eq (h : d.Explored home direct w) (h' : d.Explored home direct w') :
  w.data.normalize = w'.data.normalize
  := by
  have hrecords : ∀ root path, w.data.Records root path ↔ w'.data.Records root path := by
    intro root path
    rw [h.records_iff, h'.records_iff]
  have hcontains : ∀ root,
      w.data.dependencies.contains root = w'.data.dependencies.contains root := by
    intro root
    rw [Bool.eq_iff_iff, h.contains_dependencies_iff, h'.contains_dependencies_iff]
    simp only [hrecords]
  have hdirect : w.data.direct = w'.data.direct := by
    apply SortedSet.ext_contains
    intro root
    rw [Bool.eq_iff_iff, h.contains_direct_iff, h'.contains_direct_iff]
  have honDisk : w.data.onDisk = w'.data.onDisk := by
    apply SortedMap.ext_get?
    intro root
    apply Option.ext
    intro v
    rw [h.get?_onDisk_iff, h'.get?_onDisk_iff, hcontains]
  apply ProjectData.normalize_congr _ hdirect honDisk _ hcontains hrecords
  · apply SortedMap.ext_get?
    intro root
    rw [h.rules, h'.rules, hdirect, honDisk]
  · apply SortedSet.ext_contains
    intro root
    rw [Bool.eq_iff_iff, h.contains_notOnDisk_iff, h'.contains_notOnDisk_iff, hcontains]

end Explored

/-! ### Discovery -/

/-- The outcome of discovery is that of the walk over the direct imports of the tree. -/
theorem exists_walk {tree : PackageTree} {budget : Nat} {o : Outcome}
    (h : d.discover tree budget = some o) :
  ∃ log r, d.walkAlong .listed tree.projectRoot (directImports tree) budget { log } = some r ∧
    o.result = (Outcome.ofWalk r).result ∧ o.synced = (Outcome.ofWalk r).synced
  := by
  simp only [discover] at h
  split at h
  next hempty =>
    cases h
    have hnone : directImports tree = [] := by
      unfold directImports ReachMap.externalImports SortedMap.values
      rw [List.isEmpty_iff.1 hempty]
      simp [sortDedup, dedupAdjacent]
    rw [hnone]
    exact ⟨[], .ok { log := [] }, rfl, rfl, rfl⟩
  next =>
    obtain ⟨r, hr, rfl⟩ := Option.map_eq_some_iff.1 h
    rw [← walkAlong_listed] at hr
    exact ⟨_, r, hr, rfl, rfl⟩

/-- What discovery returns has been found by a walk that has explored everything. -/
theorem explored_of_discover {tree : PackageTree} {budget : Nat} {data : ProjectData}
    {synced : List ProjectRoot} (h : d.discover tree budget = some ⟨.ok data, synced, log⟩) :
  ∃ w, d.Explored tree.projectRoot (directImports tree) w ∧ data = w.data.normalize ∧
    synced = w.synced
  := by
  obtain ⟨log', r, hr, hresult, hsynced⟩ := exists_walk h
  have hexplored := concludes_of_walkAlong (fun p => Iff.rfl)
    (fun p hp => (outside_of_mem_directImports hp).2) hr
  cases r with
  | error f => cases hresult
  | ok w =>
    cases hresult
    exact ⟨w, hexplored, rfl, hsynced⟩

/-- What discovery records for a project is used, and there is something to record. -/
theorem uses_of_discover {tree : PackageTree} {budget : Nat} {data : ProjectData}
    {synced : List ProjectRoot} (h : d.discover tree budget = some ⟨.ok data, synced, log⟩)
    (hpaths : data.dependencies.get? root = some paths) :
  paths ≠ [] ∧ ∀ path ∈ paths, d.Uses tree.projectRoot (directImports tree) root path
  := by
  obtain ⟨w, hw, rfl, -⟩ := explored_of_discover h
  obtain ⟨-, hrecords⟩ := ProjectData.get?_normalize hpaths
  constructor
  · have hroot := SortedMap.contains_of_get? hpaths
    rw [ProjectData.contains_normalize] at hroot
    obtain ⟨path, hpath⟩ := hw.toSound.exists_records hroot
    apply List.ne_nil_of_mem ((hrecords path).2 hpath)
  · intro path hpath
    apply hw.toSound.uses ((hrecords path).1 hpath)

end DepLock.Discovery
