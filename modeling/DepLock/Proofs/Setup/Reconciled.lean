import DepLock.Proofs.Constraint
import DepLock.Proofs.Lock.Basic
import DepLock.Proofs.Order.SortedMap
import DepLock.Setup.Reconcile

/-!
# What a reconciled manifest declares

A reconciled manifest has rules for the projects of the solution only: those that it had, which do
not change, and those that the solution promotes, because their project was not locked before, is
imported directly and is not checked out (`Manifest.constraints_reconcile`). All else stays as it
was, and reconciling again with the same solution changes nothing.
-/

namespace DepLock

/-- Whether a solution gives a root a rule of its own. The root was not locked before, it has no
usable checkout and it is imported directly. The rule is what the version of the root in the solution
implies, with the source that it has there; should the root occur more than once, then the first
occurrence that implies a rule counts. -/
structure Promoted (d : ProjectData) (before : Lock) (solution : List LockedProject)
    (root : ProjectRoot) (rule : ProjectRule) : Prop where
  unlocked : before.contains root = false
  notOnDisk : d.notOnDisk.contains root = true
  direct : d.direct.contains root = true
  implied : ∃ earlier p later c, solution = earlier ++ p :: later ∧ p.root = root ∧
    Constraint.ofVersion? p.version = some c ∧ c.admits p.version = true ∧
    rule = .withSource c p.id.source ∧
    ∀ q ∈ earlier, q.root = root → Constraint.ofVersion? q.version = none

namespace LockedProject

/-- The rule that the version of a project implies for a root, if the project has this root. -/
def impliedFor? (root : ProjectRoot) (p : LockedProject) : Option ProjectRule :=
  if p.root = root then (Constraint.ofVersion? p.version).map (.withSource · p.id.source) else none

variable {root : ProjectRoot} {p : LockedProject} {ps : List LockedProject} {rule : ProjectRule}

theorem impliedFor?_of_ne (h : p.root ≠ root) :
  p.impliedFor? root = none
  := if_neg h

theorem impliedFor?_eq_none_iff :
  p.impliedFor? root = none ↔ (p.root = root → Constraint.ofVersion? p.version = none)
  := by
  simp [impliedFor?]

theorem impliedFor?_eq_some_iff :
  p.impliedFor? root = some rule ↔ p.root = root ∧ ∃ c, Constraint.ofVersion? p.version = some c ∧
    c.admits p.version = true ∧ rule = .withSource c p.id.source
  := by
  rw [impliedFor?, Option.ite_none_right_eq_some, Option.map_eq_some_iff]
  apply and_congr_right
  rintro -
  constructor
  · rintro ⟨c, hc, rfl⟩
    exact ⟨c, hc, Constraint.admits_of_ofVersion? hc, rfl⟩
  · rintro ⟨c, hc, -, rfl⟩
    exact ⟨c, hc, rfl⟩

/-- Leaving out what was locked before leaves out all occurrences of a root, or none. -/
theorem findSome?_impliedFor?_filter (before : Lock) (ps : List LockedProject)
    (root : ProjectRoot) :
  (ps.filter fun p => !before.contains p.root).findSome? (impliedFor? root)
    = if before.contains root then none else ps.findSome? (impliedFor? root)
  := by
  induction ps with
  | nil => simp
  | cons p ps ih =>
    by_cases hroot : p.root = root
    · by_cases hbefore : before.contains root
      · rw [if_pos hbefore] at ih ⊢
        rw [List.filter_cons_of_neg (by simp [hroot, hbefore]), ih]
      · rw [if_neg hbefore] at ih ⊢
        rw [List.filter_cons_of_pos (by simp [hroot, hbefore]), List.findSome?_cons,
          List.findSome?_cons, ih]
    · have hskip : (p :: ps).findSome? (impliedFor? root) = ps.findSome? (impliedFor? root) := by
        rw [List.findSome?_cons, impliedFor?_of_ne hroot]
      rw [hskip, ← ih, List.filter_cons]
      split
      · rw [List.findSome?_cons, impliedFor?_of_ne hroot]
      · rfl

/-- The rule that a list implies for a root comes from the first occurrence that implies one. -/
theorem findSome?_impliedFor?_eq_some_iff :
  ps.findSome? (impliedFor? root) = some rule ↔
    ∃ earlier p later c, ps = earlier ++ p :: later ∧ p.root = root ∧
      Constraint.ofVersion? p.version = some c ∧ c.admits p.version = true ∧
      rule = .withSource c p.id.source ∧
      ∀ q ∈ earlier, q.root = root → Constraint.ofVersion? q.version = none
  := by
  rw [List.findSome?_eq_some_iff]
  constructor
  · rintro ⟨earlier, p, later, rfl, hp, hearlier⟩
    obtain ⟨hroot, c, hc, hadmits, hrule⟩ := impliedFor?_eq_some_iff.1 hp
    exact ⟨earlier, p, later, c, rfl, hroot, hc, hadmits, hrule,
      fun q hq => impliedFor?_eq_none_iff.1 (hearlier q hq)⟩
  · rintro ⟨earlier, p, later, c, rfl, hroot, hc, hadmits, hrule, hearlier⟩
    exact ⟨earlier, p, later, rfl, impliedFor?_eq_some_iff.2 ⟨hroot, c, hc, hadmits, hrule⟩,
      fun q hq => impliedFor?_eq_none_iff.2 (hearlier q hq)⟩

end LockedProject

namespace Manifest

open LockedProject

/-- The rule that a solution promotes for a root, if it does. -/
def promoted? (d : ProjectData) (before : Lock) (solution : List LockedProject)
    (root : ProjectRoot) : Option ProjectRule :=
  if d.isNewDirect root && !before.contains root then solution.findSome? (impliedFor? root)
  else none

variable {m : Manifest} {d : ProjectData} {before : Lock} {solution : List LockedProject}
  {root : ProjectRoot} {rule : ProjectRule}

theorem promoted?_eq_some_iff :
  promoted? d before solution root = some rule ↔ Promoted d before solution root rule
  := by
  rw [promoted?, Option.ite_none_right_eq_some, findSome?_impliedFor?_eq_some_iff,
    ProjectData.isNewDirect, Bool.and_eq_true, Bool.and_eq_true, Bool.not_eq_true']
  constructor
  · rintro ⟨⟨⟨hnot, hdirect⟩, hbefore⟩, himplied⟩
    exact ⟨hbefore, hnot, hdirect, himplied⟩
  · rintro ⟨hbefore, hnot, hdirect, himplied⟩
    exact ⟨⟨⟨hnot, hdirect⟩, hbefore⟩, himplied⟩

/-! ### Adding projects -/

theorem impliedRule?_eq (m : Manifest) (d : ProjectData) (p : LockedProject) :
  m.impliedRule? d p
    = if (m.constraints.get? p.root).isNone && d.isNewDirect p.root then p.impliedFor? p.root
      else none
  := by
  rw [impliedRule?, impliedFor?, if_pos rfl, SortedMap.contains_eq_isSome, Option.not_isSome,
    Bool.and_comm]

/-- An added project sets at most the rule of its own root, and only if there is none. -/
theorem get?_addProject (m : Manifest) (d : ProjectData) (p : LockedProject) (root : ProjectRoot) :
  (m.addProject d p).1.constraints.get? root
    = (m.constraints.get? root).or (if d.isNewDirect root then p.impliedFor? root else none)
  := by
  by_cases hroot : p.root = root
  · subst hroot
    have hrule := impliedRule?_eq m d p
    rw [addProject]
    cases hget : m.constraints.get? p.root with
    | some rule =>
      have hnone : m.impliedRule? d p = none := by simpa [hget] using hrule
      simp [hnone, hget]
    | none =>
      have hrule : m.impliedRule? d p
          = if d.isNewDirect p.root then p.impliedFor? p.root else none := by
        simpa [hget] using hrule
      rw [← hrule]
      cases m.impliedRule? d p with
      | none => simp [hget]
      | some rule => simp
  · rw [impliedFor?_of_ne hroot, ite_self, Option.or_none, addProject]
    split
    · rfl
    · exact SortedMap.get?_insert_of_ne _ _ (Ne.symm hroot)

/-- An added project changes nothing but the constraints. -/
theorem addProject_only_constraints (m : Manifest) (d : ProjectData) (p : LockedProject) :
  (m.addProject d p).1 = { m with constraints := (m.addProject d p).1.constraints }
  := by
  rw [addProject]
  split <;> rfl

/-- Of some added projects, the first that implies a rule for a root sets it, if there is none. -/
theorem get?_addProjects (m : Manifest) (d : ProjectData) (ps : List LockedProject)
    (root : ProjectRoot) :
  (addProjects d ps m).1.constraints.get? root
    = (m.constraints.get? root).or
      (if d.isNewDirect root then ps.findSome? (impliedFor? root) else none)
  := by
  induction ps generalizing m with
  | nil => simp [addProjects]
  | cons p ps ih =>
    rw [addProjects, ih, get?_addProject, Option.or_assoc, List.findSome?_cons]
    split
    · cases p.impliedFor? root <;> simp
    · simp

theorem addProjects_only_constraints (m : Manifest) (d : ProjectData) (ps : List LockedProject) :
  (addProjects d ps m).1 = { m with constraints := (addProjects d ps m).1.constraints }
  := by
  induction ps generalizing m with
  | nil => rfl
  | cons p ps ih =>
    rw [addProjects, ih, addProject_only_constraints]

/-! ### Reconciling -/

/-- A root of the solution keeps its rule, or else gets the one that the solution promotes. Other
roots have none. -/
theorem get?_reconcile (m : Manifest) (d : ProjectData) (before : Lock)
    (solution : List LockedProject) (root : ProjectRoot) :
  (m.reconcile d before solution).1.constraints.get? root
    = if solution.any (·.root = root) then
        (m.constraints.get? root).or (promoted? d before solution root)
      else none
  := by
  have hpromoted : promoted? d before solution root
      = if d.isNewDirect root then
          if before.contains root then none else solution.findSome? (impliedFor? root)
        else none := by
    rw [promoted?]
    cases d.isNewDirect root <;> cases before.contains root <;> rfl
  simp only [reconcile, prune, SortedMap.get?_filter, get?_addProjects,
    findSome?_impliedFor?_filter, ← hpromoted]
  cases solution.any fun p => decide (p.root = root) with
  | false => simp
  | true =>
    rw [if_pos rfl]
    cases (m.constraints.get? root).or (promoted? d before solution root) <;> rfl

theorem reconcile_only_constraints (m : Manifest) (d : ProjectData) (before : Lock)
    (solution : List LockedProject) :
  (m.reconcile d before solution).1
    = { m with constraints := (m.reconcile d before solution).1.constraints }
  := by
  rw [reconcile]
  simp only [prune]
  rw [addProjects_only_constraints]

/-- Reconciling again changes nothing. -/
theorem reconcile_reconcile (m : Manifest) (d : ProjectData) (before : Lock)
    (solution : List LockedProject) :
  ((m.reconcile d before solution).1.reconcile d before solution).1
    = (m.reconcile d before solution).1
  := by
  have hsame : ((m.reconcile d before solution).1.reconcile d before solution).1.constraints
      = (m.reconcile d before solution).1.constraints := by
    apply SortedMap.ext_get?
    intro root
    rw [get?_reconcile, get?_reconcile]
    split
    · rw [Option.or_assoc, Option.or_self]
    · rfl
  rw [reconcile_only_constraints, hsame]

/-- A reconciled manifest has a rule for a root exactly if the solution has the root, and either the
manifest had this rule before, or it had none and the solution promotes this one. Nothing else
changes, and reconciling again changes nothing. -/
theorem constraints_reconcile (m : Manifest) (d : ProjectData) (before : Lock)
    (solution : List LockedProject) :
  (∀ root rule, (m.reconcile d before solution).1.constraints.get? root = some rule ↔
    (∃ p ∈ solution, p.root = root) ∧
      (m.constraints.get? root = some rule ∨
        m.constraints.get? root = none ∧ Promoted d before solution root rule))
  ∧ (m.reconcile d before solution).1.overrides = m.overrides
  ∧ (m.reconcile d before solution).1.ignored = m.ignored
  ∧ (m.reconcile d before solution).1.required = m.required
  ∧ ((m.reconcile d before solution).1.reconcile d before solution).1
    = (m.reconcile d before solution).1
  := by
  refine ⟨?_, ?_, ?_, ?_, reconcile_reconcile m d before solution⟩
  · intro root rule
    rw [get?_reconcile, Option.ite_none_right_eq_some, List.any_eq_true, Option.or_eq_some_iff,
      promoted?_eq_some_iff]
    simp only [decide_eq_true_eq]
  all_goals rw [reconcile_only_constraints]

end Manifest
end DepLock
