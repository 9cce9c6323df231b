import DepLock.Proofs.Order.SortedList
import DepLock.Proofs.Order.SortedMap
import DepLock.Solve.Solver

/-!
# How the requirements of a solve grow

`Grows lock s t` says what work on a queue entry may do to a state between two choices: requirements
are only added to, those on chosen projects keep their demands, and a project that is required for
the first time, or of which a chosen one is used further, stands in the queue.
-/

namespace DepLock

/-- Whether a requirement asks for nothing that another does not ask for. -/
structure Requirement.Within (r r' : Requirement) : Prop where
  demands : r.demands ⊆ r'.demands
  packages : r.packages ⊆ r'.packages

namespace Requirement.Within

theorem refl (r : Requirement) :
  r.Within r
  := ⟨List.Subset.refl _, List.Subset.refl _⟩

theorem trans {r r' r'' : Requirement} (h : r.Within r') (h' : r'.Within r'') :
  r.Within r''
  := ⟨List.Subset.trans h.demands h'.demands, List.Subset.trans h.packages h'.packages⟩

theorem join (r : Requirement) (requiredBy : String) (rule : ProjectRule) :
  r.Within (r.join requiredBy rule)
  := by
  constructor
  · rw [Requirement.join]
    split
    · apply List.Subset.refl
    · apply List.subset_append_left
  · apply List.Subset.refl

theorem insertPackage (r : Requirement) (rel : String) :
  r.Within { r with packages := insertSorted rel r.packages }
  := ⟨List.Subset.refl _, fun _ h => mem_insertSorted.2 (.inr h)⟩

end Requirement.Within

namespace SolveState

variable {s t u : SolveState} {lock : Lock} {root root' : ProjectRoot} {rel rel' : String}

/-! ### Operations -/

@[simp]
theorem chosen_require (s : SolveState) (root : ProjectRoot) :
  (s.require root).chosen = s.chosen
  := by
  unfold require
  split <;> rfl

@[simp]
theorem followed_require (s : SolveState) (root : ProjectRoot) :
  (s.require root).followed = s.followed
  := by
  unfold require
  split <;> rfl

@[simp]
theorem chosen_modify (s : SolveState) (root : ProjectRoot) (f : Requirement → Requirement) :
  (s.modify root f).chosen = s.chosen
  := by
  unfold modify
  split <;> rfl

@[simp]
theorem followed_modify (s : SolveState) (root : ProjectRoot) (f : Requirement → Requirement) :
  (s.modify root f).followed = s.followed
  := by
  unfold modify
  split <;> rfl

@[simp]
theorem queue_modify (s : SolveState) (root : ProjectRoot) (f : Requirement → Requirement) :
  (s.modify root f).queue = s.queue
  := by
  unfold modify
  split <;> rfl

theorem queue_require (s : SolveState) (root : ProjectRoot) :
  (s.require root).queue = if s.requirements.contains root then s.queue else s.queue ++ [root]
  := by
  unfold require
  split <;> rfl

theorem get?_require (s : SolveState) (root root' : ProjectRoot) :
  (s.require root).requirements.get? root'
    = if root' = root then some ((s.requirements.get? root).getD {})
      else s.requirements.get? root'
  := by
  unfold require
  split
  next h =>
    obtain ⟨r, hr⟩ := SortedMap.contains_iff.1 h
    by_cases heq : root' = root
    · simp [heq, hr]
    · simp [heq]
  next h =>
    have hnone := SortedMap.contains_eq_false_iff.1 (Bool.eq_false_iff.2 h)
    simp [SortedMap.get?_insert, hnone]

theorem get?_modify (s : SolveState) (root : ProjectRoot) (f : Requirement → Requirement)
    (root' : ProjectRoot) :
  (s.modify root f).requirements.get? root'
    = if root' = root then (s.requirements.get? root).map f else s.requirements.get? root'
  := by
  unfold modify
  split
  next h =>
    by_cases heq : root' = root
    · simp [heq, h]
    · simp [heq]
  next r h => simp [SortedMap.get?_insert, h]

/-- The requirements after a project is required and its requirement changed. -/
theorem get?_require_modify (s : SolveState) (root : ProjectRoot)
    (f : Requirement → Requirement) (root' : ProjectRoot) :
  ((s.require root).modify root f).requirements.get? root'
    = if root' = root then some (f ((s.requirements.get? root).getD {}))
      else s.requirements.get? root'
  := by
  rw [get?_modify]
  by_cases heq : root' = root
  · simp [heq, get?_require]
  · simp [heq, get?_require]

theorem contains_require_modify (s : SolveState) (root : ProjectRoot)
    (f : Requirement → Requirement) (root' : ProjectRoot) :
  ((s.require root).modify root f).requirements.contains root'
    = (decide (root' = root) || s.requirements.contains root')
  := by
  rw [SortedMap.contains_eq_isSome, SortedMap.contains_eq_isSome, get?_require_modify]
  by_cases heq : root' = root
  · simp [heq]
  · simp [heq]

/-- Changing a requirement requires nothing. -/
@[simp]
theorem contains_modify (s : SolveState) (root : ProjectRoot) (f : Requirement → Requirement)
    (root' : ProjectRoot) :
  (s.modify root f).requirements.contains root' = s.requirements.contains root'
  := by
  rw [SortedMap.contains_eq_isSome, SortedMap.contains_eq_isSome, get?_modify]
  by_cases heq : root' = root
  · simp [heq]
  · simp [heq]

theorem packages_of_get? {r : Requirement} (h : s.requirements.get? root = some r) :
  s.packages root = r.packages
  := by
  simp [packages, h]

/-- A project of which a package is required is required. -/
theorem contains_of_mem_packages (h : rel ∈ s.packages root) :
  s.requirements.contains root = true
  := by
  rw [SortedMap.contains_eq_isSome]
  cases hr : s.requirements.get? root with
  | none => simp [packages, hr] at h
  | some r => rfl

theorem packages_modify {f : Requirement → Requirement}
    (hf : ∀ r, (f r).packages = r.packages) (root' : ProjectRoot) :
  (s.modify root f).packages root' = s.packages root'
  := by
  rw [packages, get?_modify]
  by_cases heq : root' = root
  · subst heq
    cases hr : s.requirements.get? root' with
    | none => simp [packages, hr]
    | some r => simp [hf, packages, hr]
  · simp [heq, packages]

theorem packages_require (s : SolveState) (root root' : ProjectRoot) :
  (s.require root).packages root' = s.packages root'
  := by
  rw [packages, get?_require]
  by_cases heq : root' = root
  · subst heq
    cases hr : s.requirements.get? root' with
    | none => simp [packages, hr]
    | some r => simp [packages, hr]
  · simp [heq, packages]

theorem packages_require_modify {f : Requirement → Requirement}
    (hf : ∀ r, (f r).packages = r.packages) (root' : ProjectRoot) :
  ((s.require root).modify root f).packages root' = s.packages root'
  := by
  rw [packages_modify hf, packages_require]

theorem packages_requirePackage (s : SolveState) (root : ProjectRoot) (rel : String)
    (root' : ProjectRoot) :
  (s.requirePackage root rel).packages root'
    = if root' = root then insertSorted rel (s.packages root) else s.packages root'
  := by
  rw [packages, requirePackage, get?_require_modify]
  by_cases heq : root' = root
  · subst heq
    cases hr : s.requirements.get? root' with
    | none => simp [packages, hr]
    | some r => simp [packages, hr]
  · simp [heq, packages]

theorem mem_packages_requirePackage :
  rel' ∈ (s.requirePackage root rel).packages root'
    ↔ rel' ∈ s.packages root' ∨ (root' = root ∧ rel' = rel)
  := by
  rw [packages_requirePackage]
  split
  next heq =>
    subst heq
    rw [mem_insertSorted, or_comm]
    simp
  next heq => simp [heq]

/-- A used package is required, or nothing is required and the lock records it. -/
theorem mem_usedPackages :
  rel ∈ s.usedPackages lock root ↔
    rel ∈ s.packages root ∨
      (s.packages root = [] ∧ ∃ q, lock.get? root = some q ∧ rel ∈ q.packages)
  := by
  unfold usedPackages
  split
  next h =>
    cases hq : lock.get? root with
    | none => simp [h]
    | some q => simp [h]
  next h =>
    have hne : s.packages root ≠ [] := h
    simp [hne]

theorem usedPackages_congr (h : t.packages root = s.packages root) :
  t.usedPackages lock root = s.usedPackages lock root
  := by
  rw [usedPackages, usedPackages, h]

/-- The state in which a package of a project is used: it is required, and when the project is
settled and the package new, the project is queued again. -/
def use (s : SolveState) (root : ProjectRoot) (rel : String) : SolveState :=
  if s.chosen.contains root && rel ∉ s.packages root then
    { s.requirePackage root rel with queue := (s.requirePackage root rel).queue ++ [root] }
  else s.requirePackage root rel

@[simp]
theorem requirements_use (s : SolveState) (root : ProjectRoot) (rel : String) :
  (s.use root rel).requirements = (s.requirePackage root rel).requirements
  := by
  unfold use
  split <;> rfl

@[simp]
theorem chosen_use (s : SolveState) (root : ProjectRoot) (rel : String) :
  (s.use root rel).chosen = s.chosen
  := by
  unfold use
  split <;> simp [requirePackage]

@[simp]
theorem followed_use (s : SolveState) (root : ProjectRoot) (rel : String) :
  (s.use root rel).followed = s.followed
  := by
  unfold use
  split <;> simp [requirePackage]

theorem queue_subset_use (s : SolveState) (root : ProjectRoot) (rel : String) :
  (s.requirePackage root rel).queue ⊆ (s.use root rel).queue
  := by
  unfold use
  split
  · apply List.subset_append_left
  · apply List.Subset.refl

theorem packages_use (s : SolveState) (root : ProjectRoot) (rel : String) (root' : ProjectRoot) :
  (s.use root rel).packages root'
    = if root' = root then insertSorted rel (s.packages root) else s.packages root'
  := by
  rw [packages, requirements_use, ← packages_requirePackage]
  rfl

theorem mem_packages_use (s : SolveState) (root : ProjectRoot) (rel : String) :
  rel ∈ (s.use root rel).packages root
  := by
  rw [packages_use, if_pos rfl, mem_insertSorted]
  apply Or.inl rfl

/-- A settled project with a new package is queued again. -/
theorem mem_queue_use (hchosen : s.chosen.contains root = true) (hrel : rel ∉ s.packages root) :
  root ∈ (s.use root rel).queue
  := by
  simp [use, hchosen, hrel]

/-- A project that was required is required already. -/
theorem require_of_contains (h : s.requirements.contains root = true) :
  s.require root = s
  := by
  rw [require, if_pos h]

/-- The requirement on a project that is not required is not changed. -/
theorem modify_of_not_contains (h : s.requirements.contains root = false)
    (f : Requirement → Requirement) :
  s.modify root f = s
  := by
  rw [modify, SortedMap.contains_eq_false_iff.1 h]

/-! ### Growth -/

/-- What a whole solve keeps: requirements are only added to, and choices stay. -/
structure Extends (s t : SolveState) : Prop where
  chosen : ∀ root c, s.chosen.get? root = some c → t.chosen.get? root = some c
  within : ∀ root r, s.requirements.get? root = some r →
    ∃ r', t.requirements.get? root = some r' ∧ r.Within r'

namespace Extends

/-- Queue, messages and followed packages do not matter to an extension. -/
theorem of_eq (hchosen : t.chosen = s.chosen) (hrequirements : t.requirements = s.requirements) :
  Extends s t
  where
  chosen root c h := by
    rw [hchosen]
    apply h
  within root r h := by
    rw [hrequirements]
    exact ⟨r, h, .refl r⟩

theorem refl (s : SolveState) :
  Extends s s
  := .of_eq rfl rfl

theorem trans (h : Extends s t) (h' : Extends t u) :
  Extends s u
  where
  chosen root c hc := h'.chosen root c (h.chosen root c hc)
  within root r hr := by
    obtain ⟨r', hr', hwithin⟩ := h.within root r hr
    obtain ⟨r'', hr'', hwithin'⟩ := h'.within root r' hr'
    exact ⟨r'', hr'', hwithin.trans hwithin'⟩

/-- A project that is required stays required. -/
theorem contains (h : Extends s t) (hroot : s.requirements.contains root = true) :
  t.requirements.contains root = true
  := by
  obtain ⟨r, hr⟩ := SortedMap.contains_iff.1 hroot
  obtain ⟨r', hr', -⟩ := h.within root r hr
  apply SortedMap.contains_of_get? hr'

/-- A package that is required stays required. -/
theorem packages (h : Extends s t) (hrel : rel ∈ s.packages root) :
  rel ∈ t.packages root
  := by
  obtain ⟨r, hr⟩ := SortedMap.contains_iff.1 (contains_of_mem_packages hrel)
  obtain ⟨r', hr', hwithin⟩ := h.within root r hr
  rw [packages_of_get? hr] at hrel
  rw [packages_of_get? hr']
  apply hwithin.packages hrel

/-- A choice for a project that had none extends the state. -/
theorem choose (h : s.chosen.contains root = false) (c : ProjectId × Version) :
  Extends s { s with chosen := s.chosen.insert root c }
  where
  chosen root' c' h' := by
    rw [SortedMap.get?_insert_of_ne _ _ _]
    · apply h'
    · rintro rfl
      rw [SortedMap.contains_of_get? h'] at h
      cases h
  within root' r hr := ⟨r, hr, .refl r⟩

end Extends

/-- What work on a queue entry keeps between two choices. -/
structure Grows (lock : Lock) (s t : SolveState) : Prop where
  chosen : t.chosen = s.chosen
  followed : t.followed = s.followed
  queue : s.queue ⊆ t.queue
  /-- Requirements are only added to, and those on chosen projects keep demands and source. -/
  kept : ∀ root r, s.requirements.get? root = some r →
    ∃ r', t.requirements.get? root = some r' ∧ r.Within r' ∧
      (s.chosen.contains root = true → r'.demands = r.demands ∧ r'.source = r.source)
  queued : ∀ root, t.requirements.contains root = true →
    s.requirements.contains root = true ∨ root ∈ t.queue
  used : ∀ root rel, s.chosen.contains root = true → rel ∈ t.usedPackages lock root →
    rel ∈ s.usedPackages lock root ∨ root ∈ t.queue

namespace Grows

theorem refl (lock : Lock) (s : SolveState) :
  Grows lock s s
  where
  chosen := rfl
  followed := rfl
  queue := List.Subset.refl _
  kept _ r hr := ⟨r, hr, .refl r, fun _ => ⟨rfl, rfl⟩⟩
  queued _ := .inl
  used _ _ _ := .inl

theorem trans (h : Grows lock s t) (h' : Grows lock t u) :
  Grows lock s u
  where
  chosen := h'.chosen.trans h.chosen
  followed := h'.followed.trans h.followed
  queue := List.Subset.trans h.queue h'.queue
  kept root r hr := by
    obtain ⟨r', hr', hwithin, hkept⟩ := h.kept root r hr
    obtain ⟨r'', hr'', hwithin', hkept'⟩ := h'.kept root r' hr'
    use r'', hr'', hwithin.trans hwithin'
    intro hchosen
    obtain ⟨hdemands, hsource⟩ := hkept hchosen
    rw [← h.chosen] at hchosen
    obtain ⟨hdemands', hsource'⟩ := hkept' hchosen
    exact ⟨hdemands'.trans hdemands, hsource'.trans hsource⟩
  queued root hroot := by
    rcases h'.queued root hroot with hroot | hroot
    · rcases h.queued root hroot with hroot | hroot
      · apply Or.inl hroot
      · apply Or.inr (h'.queue hroot)
    · apply Or.inr hroot
  used root rel hchosen hrel := by
    rcases h'.used root rel (h.chosen ▸ hchosen) hrel with hrel | hroot
    · rcases h.used root rel hchosen hrel with hrel | hroot
      · apply Or.inl hrel
      · apply Or.inr (h'.queue hroot)
    · apply Or.inr hroot

theorem extension (h : Grows lock s t) :
  Extends s t
  where
  chosen root c hc := by
    rw [h.chosen]
    apply hc
  within root r hr := by
    obtain ⟨r', hr', hwithin, -⟩ := h.kept root r hr
    exact ⟨r', hr', hwithin⟩

end Grows

theorem queue_subset_require (s : SolveState) (root : ProjectRoot) :
  s.queue ⊆ (s.require root).queue
  := by
  rw [queue_require]
  split
  · apply List.Subset.refl
  · apply List.subset_append_left

/-- A project that is required for the first time is put into the queue. -/
theorem queued_require_modify {f : Requirement → Requirement}
    (h : ((s.require root).modify root f).requirements.contains root' = true) :
  s.requirements.contains root' = true ∨ root' ∈ (s.require root).queue
  := by
  rw [contains_require_modify, Bool.or_eq_true, decide_eq_true_eq] at h
  rcases h with rfl | h
  · rw [queue_require]
    cases hroot : s.requirements.contains root' with
    | true => apply Or.inl rfl
    | false => simp
  · apply Or.inl h

/-- A state grows when a requirement is changed without touching its packages. -/
theorem grows_require_modify {f : Requirement → Requirement}
    (hpackages : ∀ r, (f r).packages = r.packages)
    (hf : ∀ r, s.requirements.get? root = some r → r.Within (f r) ∧
      (s.chosen.contains root = true → (f r).demands = r.demands ∧ (f r).source = r.source)) :
  Grows lock s ((s.require root).modify root f)
  where
  chosen := by simp
  followed := by simp
  queue := by
    rw [queue_modify]
    apply queue_subset_require
  kept root' r hr := by
    rw [get?_require_modify]
    by_cases heq : root' = root
    · subst heq
      rw [if_pos rfl, hr]
      use f r, rfl, (hf r hr).1, (hf r hr).2
    · rw [if_neg heq]
      use r, hr, .refl r, fun _ => ⟨rfl, rfl⟩
  queued root' h := by
    rw [queue_modify]
    apply queued_require_modify h
  used root' rel _ h := by
    rw [usedPackages_congr (packages_require_modify hpackages root')] at h
    apply Or.inl h

/-- A state grows when a rule joins the requirement on a project that is not chosen. -/
theorem grows_join (h : s.chosen.contains root = false) (requiredBy : String)
    (rule : ProjectRule) :
  Grows lock s ((s.require root).modify root fun r => r.join requiredBy rule)
  := by
  apply grows_require_modify
  · intro r
    rfl
  · intro r _
    use .join r requiredBy rule
    simp [h]

/-- A state grows when a project is required that was not. -/
theorem grows_source (h : s.requirements.contains root = false) (source : Option String) :
  Grows lock s ((s.require root).modify root fun r => { r with source })
  := by
  apply grows_require_modify
  · intro r
    rfl
  · intro r hr
    rw [SortedMap.contains_of_get? hr] at h
    cases h

/-- A state grows when a package is used. -/
theorem grows_use (s : SolveState) (root : ProjectRoot) (rel : String) :
  Grows lock s (s.use root rel)
  where
  chosen := by simp
  followed := by simp
  queue := by
    apply List.Subset.trans _ (queue_subset_use s root rel)
    rw [requirePackage, queue_modify]
    apply queue_subset_require
  kept root' r hr := by
    rw [requirements_use, requirePackage, get?_require_modify]
    by_cases heq : root' = root
    · subst heq
      rw [if_pos rfl, hr]
      use { r with packages := insertSorted rel r.packages }, rfl, .insertPackage r rel,
        fun _ => ⟨rfl, rfl⟩
    · rw [if_neg heq]
      use r, hr, .refl r, fun _ => ⟨rfl, rfl⟩
  queued root' h := by
    rw [requirements_use] at h
    apply Or.imp_right _ (queued_require_modify h)
    intro hroot
    apply queue_subset_use
    rw [requirePackage, queue_modify]
    apply hroot
  used root' rel' hchosen h := by
    by_cases heq : root' = root
    · subst heq
      by_cases hrel : rel ∈ s.packages root'
      · rw [mem_usedPackages, packages_use, if_pos rfl] at h
        rcases h with h | ⟨h, -⟩
        · rw [mem_usedPackages]
          rcases mem_insertSorted.1 h with rfl | h
          · apply Or.inl (.inl hrel)
          · apply Or.inl (.inl h)
        · apply absurd h insertSorted_ne_nil
      · apply Or.inr (mem_queue_use hchosen hrel)
    · have hpackages : (s.use root rel).packages root' = s.packages root' := by
        rw [packages_use, if_neg heq]
      rw [usedPackages_congr hpackages] at h
      apply Or.inl h

end SolveState
end DepLock
