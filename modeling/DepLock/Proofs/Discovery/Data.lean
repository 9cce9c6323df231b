import DepLock.Discovery.Data
import DepLock.Proofs.Order.SortedList
import DepLock.Proofs.Order.SortedMap

/-!
# What is recorded during discovery

`ProjectData.Records` says which paths are recorded for a project. Each operation on the data of a
walk is described by what it does to the recorded paths and to the other collections.
-/

namespace DepLock

/-- The rule that a version implies for later upgrades. -/
def ProjectRule.ofVersion? (v : Version) : Option ProjectRule :=
  (Constraint.ofVersion? v).map fun c => { constraint := c }

/-- The implied rule has the implied constraint and no source. -/
theorem ProjectRule.ofVersion?_eq_some_iff {v : Version} {rule : ProjectRule} :
  ProjectRule.ofVersion? v = some rule ↔
    ∃ c, Constraint.ofVersion? v = some c ∧ rule = { constraint := c, source := none }
  := by
  rw [ProjectRule.ofVersion?, Option.map_eq_some_iff]
  simp only [eq_comm]

namespace ProjectData

variable {data : ProjectData} {root root' : ProjectRoot} {path path' : String}

/-- Whether a path is recorded for a project. -/
def Records (data : ProjectData) (root : ProjectRoot) (path : String) : Prop :=
  ∃ paths, data.dependencies.get? root = some paths ∧ path ∈ paths

theorem Records.contains (h : data.Records root path) :
  data.dependencies.contains root = true
  := by
  obtain ⟨paths, hpaths, -⟩ := h
  apply SortedMap.contains_of_get? hpaths

theorem records_congr {data' : ProjectData} (h : data'.dependencies = data.dependencies) :
  data'.Records root path ↔ data.Records root path
  := by
  rw [Records, Records, h]

/-- Recording a path adds it to those of its project. -/
theorem records_record :
  (data.record root path).Records root' path' ↔
    (root' = root ∧ path' = path) ∨ data.Records root' path'
  := by
  simp only [Records, record, SortedMap.get?_alter]
  by_cases heq : root' = root
  · subst heq
    cases hpaths : data.dependencies.get? root' with
    | none => simp
    | some paths => simp [or_comm]
  · simp [heq]

@[simp]
theorem contains_dependencies_record (data : ProjectData) (root root' : ProjectRoot)
    (path : String) :
  (data.record root path).dependencies.contains root'
    = (decide (root' = root) || data.dependencies.contains root')
  := SortedMap.contains_alter _ _ _ _

@[simp]
theorem constraints_record : (data.record root path).constraints = data.constraints := rfl

@[simp]
theorem direct_record : (data.record root path).direct = data.direct := rfl

@[simp]
theorem onDisk_record : (data.record root path).onDisk = data.onDisk := rfl

@[simp]
theorem notOnDisk_record : (data.record root path).notOnDisk = data.notOnDisk := rfl

/-- Nothing changes for a project that is known to have no usable checkout. -/
theorem markNotOnDisk_eq_self (honDisk : data.onDisk.contains root = false)
    (hrule : data.constraints.contains root = false)
    (hmarked : data.notOnDisk.contains root = true) :
  data.markNotOnDisk root = data
  := by
  rw [markNotOnDisk, SortedMap.erase_eq_self honDisk, SortedMap.erase_eq_self hrule,
    SortedSet.add_eq_self hmarked]

/-- The recorded paths of a project are listed in increasing order in the end, and those alone. -/
theorem get?_normalize {paths : List String}
    (h : data.normalize.dependencies.get? root = some paths) :
  (paths.Pairwise fun a b => compare a b = .lt) ∧ ∀ path, path ∈ paths ↔ data.Records root path
  := by
  rw [normalize, SortedMap.get?_mapValues] at h
  obtain ⟨recorded, hrecorded, rfl⟩ := Option.map_eq_some_iff.1 h
  use increasing_sortDedup recorded
  intro path
  simp [Records, hrecorded]

@[simp]
theorem contains_normalize (data : ProjectData) (root : ProjectRoot) :
  data.normalize.dependencies.contains root = data.dependencies.contains root
  := SortedMap.contains_mapValues _ _ _

/-- Data that record the same paths and agree otherwise are the same in the end. -/
theorem normalize_congr {data' : ProjectData} (hconstraints : data.constraints = data'.constraints)
    (hdirect : data.direct = data'.direct) (honDisk : data.onDisk = data'.onDisk)
    (hnotOnDisk : data.notOnDisk = data'.notOnDisk)
    (hcontains : ∀ root, data.dependencies.contains root = data'.dependencies.contains root)
    (hrecords : ∀ root path, data.Records root path ↔ data'.Records root path) :
  data.normalize = data'.normalize
  := by
  have hdependencies : data.normalize.dependencies = data'.normalize.dependencies := by
    apply SortedMap.ext_get?
    intro root
    have hkey := hcontains root
    simp only [SortedMap.contains_eq_isSome] at hkey
    simp only [normalize, SortedMap.get?_mapValues]
    cases hpaths : data.dependencies.get? root with
    | none =>
      rw [hpaths] at hkey
      rw [Option.isNone_iff_eq_none.1 (Option.isSome_eq_false_iff.1 hkey.symm)]
    | some paths =>
      rw [hpaths] at hkey
      obtain ⟨paths', hpaths'⟩ := Option.isSome_iff_exists.1 hkey.symm
      rw [hpaths', Option.map_some, Option.map_some]
      congr 1
      apply sortDedup_congr
      intro path
      have hpath := hrecords root path
      simpa [Records, hpaths, hpaths'] using hpath
  simp only [normalize] at hdependencies ⊢
  rw [hconstraints, hdirect, honDisk, hnotOnDisk, hdependencies]

end ProjectData
end DepLock
