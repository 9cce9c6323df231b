import DepLock.Proofs.Discovery.Data
import DepLock.Proofs.Discovery.Graph

/-!
# Sound walks

A walk loads no other checkouts than the usable ones, notes no other versions than those of the
workspace, and records no other packages than reached ones under the project that owns them: it is
`Sound`. Each operation on the data of a walk keeps that.
-/

namespace DepLock.Discovery

variable {d : Discovery} {home root : ProjectRoot} {direct : List String} {path : String}
  {w w' : Walk}

/-- Whether checkouts, versions and recorded packages of a walk are right. -/
structure Sound (d : Discovery) (home : ProjectRoot) (direct : List String) (w : Walk) : Prop where
  checkouts : ∀ root c, w.checkouts.get? root = some c → d.checkoutAt root = some c
  onDisk : ∀ root v, w.data.onDisk.get? root = some v → d.workspace.version root = .resolved v
  dependencies : ∀ root paths, w.data.dependencies.get? root = some paths →
    paths ≠ [] ∧ ∀ path ∈ paths, d.Uses home direct root path

namespace Sound

theorem empty (d : Discovery) (home : ProjectRoot) (direct : List String) (log : Log) :
  d.Sound home direct { log }
  where
  checkouts := by simp
  onDisk := by simp
  dependencies := by simp

/-- Soundness is about versions and recorded packages, once the checkouts are right. -/
theorem of_eq (h : d.Sound home direct w)
    (hcheckouts : ∀ root c, w'.checkouts.get? root = some c → d.checkoutAt root = some c)
    (honDisk : w'.data.onDisk = w.data.onDisk)
    (hdependencies : w'.data.dependencies = w.data.dependencies) :
  d.Sound home direct w'
  where
  checkouts := hcheckouts
  onDisk := by
    rw [honDisk]
    apply h.onDisk
  dependencies := by
    rw [hdependencies]
    apply h.dependencies

theorem record (h : d.Sound home direct w) (hpath : d.Uses home direct root path) :
  d.Sound home direct (w.record root path)
  where
  checkouts := h.checkouts
  onDisk := h.onDisk
  dependencies := by
    intro root' paths hpaths
    rw [Walk.record, ProjectData.record, SortedMap.get?_alter] at hpaths
    split at hpaths
    next heq =>
      subst heq
      cases hpaths
      use by simp
      intro path' hpath'
      rcases List.mem_append.1 hpath' with hold | hnew
      · cases hget : w.data.dependencies.get? root' with
        | none => simp [hget] at hold
        | some paths =>
          rw [hget] at hold
          apply (h.dependencies root' paths hget).2 path' hold
      · obtain rfl := List.mem_singleton.1 hnew
        apply hpath
    next => apply h.dependencies root' paths hpaths

theorem markNotOnDisk (h : d.Sound home direct w) (root : ProjectRoot) :
  d.Sound home direct (w.markNotOnDisk root)
  where
  checkouts := h.checkouts
  onDisk := by
    intro root' v hv
    rw [Walk.markNotOnDisk, ProjectData.markNotOnDisk, SortedMap.get?_erase] at hv
    split at hv
    next => cases hv
    next => apply h.onDisk root' v hv
  dependencies := h.dependencies

/-- The version of the workspace is noted for a project. -/
theorem note {v : Version} (h : d.Sound home direct w)
    (hv : d.workspace.version root = .resolved v) :
  d.Sound home direct { w with data := { w.data with onDisk := w.data.onDisk.insert root v } }
  where
  checkouts := h.checkouts
  onDisk := by
    intro root' v' hv'
    rw [SortedMap.get?_insert] at hv'
    split at hv'
    next heq =>
      subst heq
      cases hv'
      apply hv
    next => apply h.onDisk root' v' hv'
  dependencies := h.dependencies

theorem uses (h : d.Sound home direct w) (hpath : w.data.Records root path) :
  d.Uses home direct root path
  := by
  obtain ⟨paths, hpaths, hmem⟩ := hpath
  apply (h.dependencies root paths hpaths).2 path hmem

/-- A dependency has a recorded path. -/
theorem exists_records (h : d.Sound home direct w)
    (hroot : w.data.dependencies.contains root = true) :
  ∃ path, w.data.Records root path
  := by
  obtain ⟨paths, hpaths⟩ := SortedMap.contains_iff.1 hroot
  obtain ⟨path, hpath⟩ := List.exists_mem_of_ne_nil paths (h.dependencies root paths hpaths).1
  exact ⟨path, paths, hpaths, hpath⟩

end Sound

end DepLock.Discovery
