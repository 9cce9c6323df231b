import DepLock.Lock.Basic

/-!
# Entries of a lock
-/

namespace DepLock.Lock

variable {l : Lock} {root : ProjectRoot} {q : LockedProject}

/-- The entry of a root is one of the lock's, and has that root. -/
theorem mem_of_get? (h : l.get? root = some q) :
  q ∈ l.projects ∧ q.root = root
  := by
  constructor
  · apply List.mem_of_find?_eq_some h
  · simpa using List.find?_some h

/-- The root of an entry has an entry. -/
theorem contains_of_mem (h : q ∈ l.projects) :
  l.contains q.root = true
  := by
  rw [contains, get?, List.find?_isSome]
  exact ⟨q, h, decide_eq_true rfl⟩

/-! ### Locks of lists -/

theorem mem_of_mem_upsertProject {r : LockedProject} {qs : List LockedProject}
    (h : r ∈ upsertProject q qs) :
  r = q ∨ r ∈ qs
  := by
  induction qs with
  | nil => apply Or.inl (List.mem_singleton.1 h)
  | cons q' qs ih =>
    rw [upsertProject] at h
    split at h
    · rcases List.mem_cons.1 h with h | h
      · apply Or.inl h
      · apply Or.inr (List.mem_cons_of_mem _ h)
    · rcases List.mem_cons.1 h with rfl | h
      · apply Or.inr List.mem_cons_self
      · apply (ih h).imp_right (List.mem_cons_of_mem _)

/-- The entries of the lock of some projects are among these. -/
theorem mem_of_mem_ofProjects {qs : List LockedProject} (h : q ∈ (ofProjects qs).projects) :
  q ∈ qs
  := by
  suffices hfold : ∀ l : Lock, q ∈ (qs.foldl upsert l).projects → q ∈ l.projects ∨ q ∈ qs by
    rcases hfold {} h with hnone | hmem
    · cases hnone
    · apply hmem
  clear h
  induction qs with
  | nil => exact fun _ => Or.inl
  | cons r qs ih =>
    intro l h
    rcases ih (l.upsert r) h with h | h
    · rcases mem_of_mem_upsertProject h with rfl | h
      · apply Or.inr List.mem_cons_self
      · apply Or.inl h
    · apply Or.inr (List.mem_cons_of_mem _ h)

theorem find?_upsertProject (q : LockedProject) (qs : List LockedProject) (root : ProjectRoot) :
  (upsertProject q qs).find? (·.root = root)
    = if q.root = root then some q else qs.find? (·.root = root)
  := by
  induction qs with
  | nil =>
    by_cases hroot : q.root = root
    · simp [upsertProject, hroot]
    · simp [upsertProject, hroot]
  | cons q' qs ih =>
    rw [upsertProject]
    split
    next hsame =>
      by_cases hroot : q.root = root
      · simp [hroot]
      · simp [hroot, hsame]
    next hother =>
      by_cases hroot : q'.root = root
      · have hne : q.root ≠ root := fun h => hother (hroot.trans h.symm)
        simp [hroot, hne]
      · simp [hroot, ih]

/-- After an entry is set, its root has it, and other roots have what they had. -/
theorem get?_upsert (l : Lock) (q : LockedProject) (root : ProjectRoot) :
  (l.upsert q).get? root = if q.root = root then some q else l.get? root
  := find?_upsertProject q l.projects root

/-- The last of what two lists have is the last of the second, if that has any. -/
theorem findRev?_append (ps qs : List LockedProject) (test : LockedProject → Bool) :
  (ps ++ qs).findRev? test = (qs.findRev? test).or (ps.findRev? test)
  := by
  simp only [List.findRev?_eq_find?_reverse, List.reverse_append, List.find?_append]

/-- What is found after some entries were set is the last of them with the root, or else what was
found before. -/
theorem get?_foldl_upsert_eq (l : Lock) (ps : List LockedProject) (root : ProjectRoot) :
  (ps.foldl upsert l).get? root = (ps.findRev? (·.root = root)).or (l.get? root)
  := by
  induction ps generalizing l with
  | nil => rfl
  | cons p ps ih =>
    rw [List.foldl_cons, ih, get?_upsert, ← List.singleton_append, findRev?_append, Option.or_assoc]
    by_cases hroot : p.root = root
    · simp [List.findRev?, hroot]
    · simp [List.findRev?, hroot]

/-- The lock of projects with different roots has each of them. -/
theorem get?_ofProjects {qs : List LockedProject}
    (hdistinct : qs.Pairwise fun q r => q.root ≠ r.root) (h : q ∈ qs) :
  (ofProjects qs).get? q.root = some q
  := by
  obtain ⟨before, after, rfl⟩ := List.append_of_mem h
  obtain ⟨-, hlast, -⟩ := List.pairwise_append.mp hdistinct
  have hafter : after.findRev? (·.root = q.root) = none := by
    rw [List.findRev?_eq_find?_reverse, List.find?_eq_none]
    intro r hr
    simpa using (List.rel_of_pairwise_cons hlast (List.mem_reverse.mp hr)).symm
  rw [ofProjects, get?_foldl_upsert_eq, ← List.singleton_append, findRev?_append, findRev?_append,
    hafter]
  simp [List.findRev?]

/-- A new project goes last. -/
theorem upsertProject_of_new {qs : List LockedProject} (h : ∀ r ∈ qs, r.root ≠ q.root) :
  upsertProject q qs = qs ++ [q]
  := by
  induction qs with
  | nil => rfl
  | cons r qs ih =>
    obtain ⟨hr, hrest⟩ := List.forall_mem_cons.1 h
    rw [upsertProject, if_neg hr, ih hrest, List.cons_append]

/-- The lock of projects with different roots has them in their order. -/
theorem projects_ofProjects {qs : List LockedProject}
    (hdistinct : qs.Pairwise fun q r => q.root ≠ r.root) :
  (ofProjects qs).projects = qs
  := by
  suffices hfold : ∀ l : Lock, (l.projects ++ qs).Pairwise (fun q r => q.root ≠ r.root) →
      (qs.foldl upsert l).projects = l.projects ++ qs by
    apply hfold {} hdistinct
  clear hdistinct
  induction qs with
  | nil => simp
  | cons q qs ih =>
    intro l hdistinct
    have hnew : (l.upsert q).projects = l.projects ++ [q] := by
      apply upsertProject_of_new
      intro r hr
      apply (List.pairwise_append.1 hdistinct).2.2 r hr q List.mem_cons_self
    rw [List.foldl_cons, ih, hnew, List.append_assoc, List.singleton_append]
    rwa [hnew, List.append_assoc, List.singleton_append]

end DepLock.Lock
