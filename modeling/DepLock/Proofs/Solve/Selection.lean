import DepLock.Solve.Selection
import Mathlib.Data.List.Basic

/-!
# What a selection guarantees

A version that is selected is kept from the lock, found for a pinned revision, or listed
(`SourceManager.select_cases`). In each case it meets all demands.
-/

namespace DepLock

variable {v : Version} {demands : List Demand} {lock : Lock} {root : ProjectRoot}

theorem Version.meets_iff :
  v.meets demands = true ↔ ∀ d ∈ demands, d.constraint.admits v = true
  := by
  simp [Version.meets]

/-- Every version is acceptable to the constraint that accepts all. -/
theorem Constraint.admits_of_isAny {c : Constraint} (h : c.isAny = true) (v : Version) :
  c.admits v = true
  := by
  cases c with
  | any => rfl
  | _ => cases h

/-- The revision that is pinned is pinned by a demand. -/
theorem exists_of_pinnedRevision? {r : Revision} (h : pinnedRevision? demands = some r) :
  ∃ d ∈ demands, d.constraint = .revision r
  := by
  obtain ⟨d, hd, hpin⟩ := List.exists_of_findSome?_eq_some h
  use d, hd
  split at hpin
  next r' hr' =>
    cases hpin
    apply hr'
  next => cases hpin

/-- What a lock keeps for a project is the version of its entry, which meets the demands. -/
theorem Lock.kept?_eq_some_iff :
  lock.kept? root demands = some v
    ↔ ∃ e, lock.get? root = some e ∧ e.version = v ∧ v.meets demands = true
  := by
  rw [Lock.kept?, Option.filter_eq_some_iff, Option.map_eq_some_iff]
  constructor
  · rintro ⟨⟨e, he, hversion⟩, hmeets⟩
    exact ⟨e, he, hversion, hmeets⟩
  · rintro ⟨e, he, hversion, hmeets⟩
    exact ⟨⟨e, he, hversion⟩, hmeets⟩

namespace SourceManager

variable {sm : SourceManager} {id : ProjectId}

/-- A selected version is the one that the lock keeps, the one at the pinned revision, or the first
of the listed ones that meets the demands. -/
theorem select_cases (h : sm.select id demands lock = .ok v) :
  lock.kept? id.root demands = some v ∨
  (∃ r, pinnedRevision? demands = some r ∧ v = sm.versionAt id none r ∧ v.meets demands = true) ∨
  ∃ versions, sm.listVersions id = .ok versions ∧
    (Version.sortForUpgrade versions).find? (·.meets demands) = some v
  := by
  unfold select at h
  split at h
  next hkept =>
    cases h
    apply Or.inl hkept
  next =>
    split at h
    next r hr =>
      simp only at h
      split at h
      next hmeets =>
        cases h
        exact .inr (.inl ⟨r, hr, rfl, hmeets⟩)
      next => cases h
    next =>
      split at h
      next => cases h
      next versions hversions =>
        simp only at h
        split at h
        next hfind =>
          cases h
          exact .inr (.inr ⟨versions, hversions, hfind⟩)
        next => cases h

/-- A locked version that meets the demands is selected. -/
theorem select_of_locked {e : LockedProject} (he : lock.get? id.root = some e)
    (hmeets : e.version.meets demands = true) :
  sm.select id demands lock = .ok e.version
  := by
  rw [select, Lock.kept?_eq_some_iff.2 ⟨e, he, rfl, hmeets⟩]

theorem meets_of_select (h : sm.select id demands lock = .ok v) :
  v.meets demands = true
  := by
  rcases select_cases h with hkept | ⟨_, -, -, hmeets⟩ | ⟨_, -, hfind⟩
  · obtain ⟨_, -, -, hmeets⟩ := Lock.kept?_eq_some_iff.1 hkept
    apply hmeets
  · apply hmeets
  · apply List.find?_some hfind

end SourceManager
end DepLock
