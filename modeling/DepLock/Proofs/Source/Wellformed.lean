import DepLock.Proofs.Constraint
import DepLock.Proofs.Lock.Basic
import DepLock.Proofs.Solve.Selection
import DepLock.Proofs.Version

/-!
# Where versions come from

Versions are listed by a source manager or read from a lock. If these are well-formed, then so is
every constraint that is inferred from a hint, every version that is found for a revision
(`SourceManager.wellformed_versionAt`), and every version that is selected
(`SourceManager.wellformed_of_select`).
-/

namespace DepLock

/-- Whether all versions that can be listed are well-formed. -/
def SourceManager.Wellformed (sm : SourceManager) : Prop :=
  ∀ id versions, sm.listVersions id = .ok versions → ∀ v ∈ versions, v.Wellformed

/-- Whether all versions in a lock are well-formed. -/
def Lock.Wellformed (l : Lock) : Prop := ∀ p ∈ l.projects, p.version.Wellformed

theorem Version.wellformed_bare (r : Revision) :
  (bare r).Wellformed
  := nofun

/-! ### Locks -/

namespace Lock.Wellformed

variable {l l' : Lock} {p : LockedProject} {ps : List LockedProject}

theorem empty :
  (⟨"", []⟩ : Lock).Wellformed
  := nofun

theorem upsert (h : l.Wellformed) (hp : p.version.Wellformed) :
  (l.upsert p).Wellformed
  := by
  intro q hq
  rcases mem_of_mem_upsertProject hq with rfl | hq
  · apply hp
  · apply h q hq

theorem foldl_upsert (h : l.Wellformed) (hps : ∀ p ∈ ps, p.version.Wellformed) :
  (ps.foldl Lock.upsert l).Wellformed
  := by
  induction ps generalizing l with
  | nil => apply h
  | cons p ps ih =>
    obtain ⟨hp, hps⟩ := List.forall_mem_cons.1 hps
    apply ih (h.upsert hp) hps

theorem merge (h : l.Wellformed) (h' : l'.Wellformed) :
  (l.merge l').Wellformed
  := h.foldl_upsert h'

end Lock.Wellformed

/-! ### Inference -/

namespace Inference

variable {versions : List Version} {hint : String} {c : Constraint}

/-- Only a range in the hint gives a range, and that is well-formed. -/
theorem wellformed_of_inferConstraint? (h : inferConstraint? hint versions = some c) :
  c.Wellformed
  := by
  unfold inferConstraint? at h
  split at h
  next =>
    cases h
    exact nofun
  next =>
    split at h
    next =>
      cases h
      exact nofun
    next =>
      split at h
      next c' hc' =>
        cases h
        obtain ⟨range, rfl, hrange⟩ := Constraint.wellformed_of_impliedCaret? hc'
        rintro _ ⟨⟩
        apply hrange
      next =>
        split at h
        next =>
          cases h
          exact nofun
        next =>
          split at h
          next =>
            cases h
            exact nofun
          next =>
            split at h
            next =>
              cases h
              exact nofun
            next => cases h

/-- What is found for a branch constraint is a branch. -/
theorem exists_of_branchRef? {constraint : Option Constraint} {ref : Ref}
    (h : branchRef? constraint versions = some ref) :
  ∃ name isDefault, ref = .branch name isDefault
  := by
  unfold branchRef? at h
  split at h
  next name =>
    obtain ⟨v, -, hv⟩ := List.exists_of_findSome?_eq_some h
    split at hv
    next n isDefault href =>
      split at hv
      next =>
        cases hv
        exact ⟨n, isDefault, rfl⟩
      next => cases hv
    next => cases hv
  next => cases h

/-- The version for a revision is a listed one, a branch, or a bare revision. -/
theorem wellformed_matchRevision (h : ∀ v ∈ versions, v.Wellformed)
    (constraint : Option Constraint) (r : Revision) :
  (matchRevision versions constraint r).Wellformed
  := by
  have hhere : ∀ v ∈ (Version.sortForUpgrade versions).filter (isAt r), v.Wellformed :=
    fun v hv => h v (Version.mem_sortForUpgrade.1 (List.mem_filter.1 hv).1)
  simp only [matchRevision]
  split
  next v hv =>
    obtain ⟨c, -, hv⟩ := Option.bind_eq_some_iff.1 hv
    apply hhere v (List.mem_of_find?_eq_some hv)
  next =>
    split
    next branch hbranch =>
      obtain ⟨name, isDefault, rfl⟩ := exists_of_branchRef? hbranch
      exact nofun
    next =>
      cases hhead : ((Version.sortForUpgrade versions).filter (isAt r)).head? with
      | none => exact nofun
      | some v => apply hhere v (List.mem_of_mem_head? hhead)

end Inference

namespace SourceManager

variable {sm : SourceManager} {id : ProjectId}

theorem wellformed_of_inferConstraint {hint : String} {c : Constraint}
    (h : sm.inferConstraint hint id = .ok c) :
  c.Wellformed
  := by
  unfold inferConstraint at h
  split at h
  next =>
    cases h
    exact nofun
  next =>
    split at h
    next => cases h
    next =>
      split at h
      next c' hc' =>
        cases h
        apply Inference.wellformed_of_inferConstraint? hc'
      next => cases h

theorem wellformed_versionAt (hsm : sm.Wellformed) (constraint : Option Constraint)
    (r : Revision) :
  (sm.versionAt id constraint r).Wellformed
  := by
  unfold versionAt
  split
  next versions hversions =>
    apply Inference.wellformed_matchRevision (hsm id versions hversions)
  next => apply Version.wellformed_bare

/-- A selected version is locked, found for a pinned revision, or listed. -/
theorem wellformed_of_select (hsm : sm.Wellformed) {lock : Lock} (hlock : lock.Wellformed)
    {demands : List Demand} {v : Version} (h : sm.select id demands lock = .ok v) :
  v.Wellformed
  := by
  rcases select_cases h with hkept | ⟨r, -, rfl, -⟩ | ⟨versions, hversions, hfind⟩
  · obtain ⟨q, hq, rfl, -⟩ := Lock.kept?_eq_some_iff.1 hkept
    apply hlock q (Lock.mem_of_get? hq).1
  · apply wellformed_versionAt hsm
  · have hmem := List.mem_of_find?_eq_some hfind
    apply hsm id versions hversions v (Version.mem_sortForUpgrade.1 hmem)

end SourceManager
end DepLock
