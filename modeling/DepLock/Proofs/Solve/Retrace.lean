import DepLock.Proofs.Solve.Solution

/-!
# Solves that retrace another

A state `Retraces` a finished one if it requires no package that the other does not require, and
demands nothing that the versions chosen there do not meet. The operations of a solve keep it so, as
long as they are about packages and rules of the finished state. Only packages that are still
`missing` can queue a project again, which bounds the number of projects that are `outstanding`.
-/

namespace DepLock.Solver

open SolveState

variable {sv : Solver} {p : SolveProblem} {s t u : SolveState} {root dep : ProjectRoot}
  {v : Version} {id : ProjectId} {rel : String}

namespace Finished

/-- A rule that is held is on a chosen project, and admits its version unless the project is
overridden. -/
theorem chosen_of_held (h : sv.Finished p t) {requiredBy : String} {rule : ProjectRule}
    (hheld : Held p t dep requiredBy rule) :
  ∃ id v, t.chosen.get? dep = some (id, v) ∧
    (p.manifest.overrides.contains dep = false → rule.constraint.admits v = true)
  := by
  obtain ⟨q, hq, rfl, hadmits⟩ := h.exists_of_held hheld
  exact ⟨q.id, q.version, (h.of_mem hq).1, hadmits⟩

end Finished

/-! ### Asking for nothing new -/

/-- What is asked of a project, which is nothing if it is not required. -/
def asked (s : SolveState) (root : ProjectRoot) : Requirement := (s.requirements.get? root).getD {}

/-- Whether a state asks for nothing that a finished state `t` did not ask for, and has chosen the
same versions as far as it has chosen any. -/
structure Retraces (p : SolveProblem) (t s : SolveState) : Prop where
  required : ∀ root, s.requirements.contains root = true → t.chosen.contains root = true
  packages : ∀ root, ∀ rel ∈ s.packages root, rel ∈ t.packages root
  meets : ∀ root id v, t.chosen.get? root = some (id, v) →
    v.meets (effective p root (asked s root)).2 = true
  chosen : ∀ root id v, s.chosen.get? root = some (id, v) →
    ∃ id', t.chosen.get? root = some (id', v)

/-- The demands that count on a project stay met if those that joined do: an override is not
affected. -/
theorem meets_effective_of {r r' : Requirement} (h : v.meets (effective p root r).2 = true)
    (hdemands : p.manifest.overrides.contains root = false → v.meets r.demands = true →
      v.meets r'.demands = true) :
  v.meets (effective p root r').2 = true
  := by
  cases ho : p.manifest.overrides.get? root with
  | none =>
    have hover := SortedMap.contains_eq_false_iff.2 ho
    rw [demands_effective hover] at h ⊢
    apply hdemands hover h
  | some o =>
    simp only [effective, ho] at h ⊢
    apply h

theorem asked_require_modify (s : SolveState) (root : ProjectRoot) (f : Requirement → Requirement)
    (root' : ProjectRoot) :
  asked ((s.require root).modify root f) root'
    = if root' = root then f (asked s root) else asked s root'
  := by
  rw [asked, get?_require_modify]
  split
  next => rfl
  next => rfl

namespace Retraces

/-- Queue, messages and followed packages do not matter. -/
theorem of_eq (h : Retraces p t s) (hrequirements : u.requirements = s.requirements)
    (hchosen : u.chosen = s.chosen) :
  Retraces p t u
  where
  required := by
    rw [hrequirements]
    apply h.required
  packages root rel hrel := by
    rw [SolveState.packages, hrequirements] at hrel
    apply h.packages root rel hrel
  meets := by
    simp only [asked, hrequirements]
    apply h.meets
  chosen := by
    rw [hchosen]
    apply h.chosen

/-- A project that was chosen is required, and its requirement changed so that it asks for no
package that was not required, and for no version but the chosen one. -/
theorem require_modify (h : Retraces p t s) {f : Requirement → Requirement}
    (hv : t.chosen.get? root = some (id, v))
    (hpackages : ∀ rel ∈ (f (asked s root)).packages, rel ∈ t.packages root)
    (hdemands : p.manifest.overrides.contains root = false →
      v.meets (asked s root).demands = true → v.meets (f (asked s root)).demands = true) :
  Retraces p t ((s.require root).modify root f)
  where
  required root' hroot' := by
    rw [contains_require_modify, Bool.or_eq_true, decide_eq_true_eq] at hroot'
    rcases hroot' with rfl | hroot'
    · apply SortedMap.contains_of_get? hv
    · apply h.required root' hroot'
  packages root' rel hrel := by
    rw [SolveState.packages, get?_require_modify] at hrel
    split at hrel
    next heq =>
      subst heq
      apply hpackages rel hrel
    next => apply h.packages root' rel hrel
  meets root' id' v' hv' := by
    rw [asked_require_modify]
    split
    next heq =>
      subst heq
      rw [hv] at hv'
      cases hv'
      apply meets_effective_of (h.meets root' id v hv) hdemands
    next => apply h.meets root' id' v' hv'
  chosen root' id' v' hv' := by
    rw [chosen_modify, chosen_require] at hv'
    apply h.chosen root' id' v' hv'

/-- The packages that are asked for are required. -/
theorem packages_asked (h : Retraces p t s) :
  ∀ rel ∈ (asked s root).packages, rel ∈ t.packages root
  := by
  intro rel hrel
  apply h.packages
  rw [asked] at hrel
  cases hr : s.requirements.get? root with
  | none => simp [hr] at hrel
  | some r =>
    rw [hr] at hrel
    rw [packages_of_get? hr]
    apply hrel

/-- A rule that admits the chosen version joins. -/
theorem join (h : Retraces p t s) (requiredBy : String) {rule : ProjectRule}
    (hv : t.chosen.get? root = some (id, v))
    (hadmits : p.manifest.overrides.contains root = false → rule.constraint.admits v = true) :
  Retraces p t ((s.require root).modify root fun r => r.join requiredBy rule)
  := by
  apply h.require_modify hv
  · apply h.packages_asked
  · intro hover hmeets
    simp only [Requirement.join]
    split
    next => apply hmeets
    next =>
      rw [Version.meets_iff] at hmeets ⊢
      intro d hd
      rcases List.mem_append.1 hd with hd | hd
      · apply hmeets d hd
      · rw [List.mem_singleton.1 hd]
        apply hadmits hover

/-- A project is required at some source. -/
theorem lock (h : Retraces p t s) (hv : t.chosen.get? root = some (id, v))
    (source : Option String) :
  Retraces p t ((s.require root).modify root fun r => { r with source })
  := by
  apply h.require_modify hv
  · apply h.packages_asked
  · exact fun _ hmeets => hmeets

/-- A package that was required is used. -/
theorem use (hfinished : sv.Finished p t) (h : Retraces p t s) (hrel : rel ∈ t.packages root) :
  Retraces p t (s.use root rel)
  := by
  obtain ⟨⟨id, v⟩, hv⟩ := SortedMap.contains_iff.1
    (hfinished.chosen_of_contains (contains_of_mem_packages hrel))
  have hrequire : Retraces p t (s.requirePackage root rel) := by
    apply h.require_modify hv
    · intro rel' hrel'
      rcases mem_insertSorted.1 hrel' with rfl | hrel'
      · apply hrel
      · apply h.packages_asked rel' hrel'
    · exact fun _ hmeets => hmeets
  apply hrequire.of_eq (requirements_use s root rel)
  rw [chosen_use, requirePackage, chosen_modify, chosen_require]

/-- The version that was chosen for a project is chosen again. -/
theorem choose (h : Retraces p t s) {id' : ProjectId} (hv : t.chosen.get? root = some (id, v)) :
  Retraces p t { s with chosen := s.chosen.insert root (id', v) }
  where
  required := h.required
  packages := h.packages
  meets := h.meets
  chosen root' id'' v' hv' := by
    rw [SortedMap.get?_insert] at hv'
    split at hv'
    next heq =>
      subst heq
      cases hv'
      exact ⟨id, hv⟩
    next => apply h.chosen root' id'' v' hv'

end Retraces

/-! ### What is missing -/

/-- The packages that a state requires, with their projects. -/
def requiredPackages (t : SolveState) : List (ProjectRoot × String) :=
  t.requirements.toList.flatMap fun (root, r) => r.packages.map (root, ·)

theorem mem_requiredPackages (h : rel ∈ t.packages root) :
  (root, rel) ∈ requiredPackages t
  := by
  obtain ⟨r, hr⟩ := SortedMap.contains_iff.1 (contains_of_mem_packages h)
  rw [packages_of_get? hr] at h
  apply List.mem_flatMap.2 ⟨(root, r), SortedMap.get?_eq_some_iff.1 hr, _⟩
  apply List.mem_map_of_mem h

/-- The packages that a finished state `t` requires and `s` does not. -/
def missing (t s : SolveState) : List (ProjectRoot × String) :=
  (requiredPackages t).filter fun e => e.2 ∉ s.packages e.1

theorem missing_eq_filter (h : ∀ root, ∀ rel ∈ s.packages root, rel ∈ u.packages root) :
  missing t u = (missing t s).filter fun e => e.2 ∉ u.packages e.1
  := by
  rw [missing, missing, List.filter_filter]
  apply List.filter_congr
  rintro ⟨root, rel⟩ -
  cases hu : decide (rel ∉ u.packages root) with
  | false => rfl
  | true =>
    have hs : rel ∉ s.packages root := fun hs => of_decide_eq_true hu (h root rel hs)
    simp [hs]

/-- The number of projects that come up from a state on, at most, if no new project is required. -/
def outstanding (t s : SolveState) : Nat := s.queue.length + (missing t s).length

/-- Using a package of a required project does not add to what is outstanding: if it queues the
project again, the package was missing. -/
theorem outstanding_use (hroot : s.requirements.contains root = true)
    (hrel : rel ∈ t.packages root) :
  outstanding t (s.use root rel) ≤ outstanding t s
  := by
  have hkept : ∀ root', ∀ rel' ∈ s.packages root', rel' ∈ (s.use root rel).packages root' := by
    intro root' rel' hrel'
    rw [packages_use]
    split
    next heq =>
      subst heq
      apply mem_insertSorted.2 (.inr hrel')
    next => apply hrel'
  have hmissing := missing_eq_filter (t := t) hkept
  have hqueue : (s.requirePackage root rel).queue = s.queue := by
    rw [requirePackage, queue_modify, queue_require, if_pos hroot]
  rw [outstanding, outstanding, hmissing]
  cases hagain : s.chosen.contains root && decide (rel ∉ s.packages root) with
  | false =>
    have huse : (s.use root rel).queue = s.queue := by rw [SolveState.use, hagain, ← hqueue]; rfl
    rw [huse]
    apply Nat.add_le_add_left (List.length_filter_le _ _)
  | true =>
    have huse : (s.use root rel).queue = s.queue ++ [root] := by
      rw [SolveState.use, hagain, ← hqueue]; rfl
    have hnew : rel ∉ s.packages root := by
      rw [Bool.and_eq_true, decide_eq_true_eq] at hagain
      apply hagain.2
    have hless : ((missing t s).filter fun e => e.2 ∉ (s.use root rel).packages e.1).length
        < (missing t s).length := by
      apply List.length_filter_lt_length_iff_exists.2
      use (root, rel)
      constructor
      · apply List.mem_filter.2 ⟨mem_requiredPackages hrel, by simpa using hnew⟩
      · simpa using mem_packages_use s root rel
    rw [huse, List.length_append, List.length_singleton]
    omega

/-- Changing what is asked of a required project, apart from its packages, does not add to what is
outstanding. -/
theorem outstanding_require_modify {f : Requirement → Requirement}
    (hpackages : ∀ r, (f r).packages = r.packages) (hroot : s.requirements.contains root = true) :
  outstanding t ((s.require root).modify root f) = outstanding t s
  := by
  rw [outstanding, outstanding, missing, missing, queue_modify, queue_require, if_pos hroot]
  simp only [packages_require_modify hpackages]

end DepLock.Solver
