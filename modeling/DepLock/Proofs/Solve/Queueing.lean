import DepLock.Proofs.Solve.Invariant

/-!
# Why projects stand in the queue

There are two causes for a project to be put into the queue: it is required for the first time, or
a package is required of it for the first time after it was settled. Work on a state `Queues` one
entry for each cause that arises and no others: so does every move, hence every step. A `History`
collects the causes of a solve from the start on. As what is required stays required, no cause
arises twice.
-/

namespace DepLock.Solver

open SolveState

/-- Why a project is put into the queue: it is required for the first time, or a package of it is
after the project was settled. -/
inductive Cause where
  | first (root : ProjectRoot)
  | again (root : ProjectRoot) (rel : String)

/-- The project that is put into the queue. -/
def Cause.root : Cause → ProjectRoot
  | first root => root
  | again root _ => root

variable {sv : Solver} {p : SolveProblem} {s t u : SolveState} {root : ProjectRoot}
  {came queue : List ProjectRoot} {causes new : List Cause}

/-- Whether a state requires what a cause is about. -/
def Cause.Met (s : SolveState) : Cause → Prop
  | first root => s.requirements.contains root = true
  | again root rel => rel ∈ s.packages root

/-- Whether a cause is met that was not before; a package counts if its project is settled. -/
inductive Arises (s t : SolveState) : Cause → Prop where
  | first {root : ProjectRoot} :
      s.requirements.contains root = false → t.requirements.contains root = true →
      Arises s t (.first root)
  | again {root : ProjectRoot} {rel : String} :
      t.chosen.contains root = true → rel ∉ s.packages root → rel ∈ t.packages root →
      Arises s t (.again root rel)

/-- Whether the work from one state to another puts one project into the queue for each cause that
arises from it. -/
structure Queues (s t : SolveState) (causes : List Cause) : Prop where
  queue : t.queue = s.queue ++ causes.map Cause.root
  nodup : causes.Nodup
  mem_iff : ∀ c, c ∈ causes ↔ Arises s t c

namespace Cause

theorem Met.mono {c : Cause} (h : Extends s t) (hc : c.Met s) :
  c.Met t
  := by
  cases c with
  | first root => apply h.contains hc
  | again root rel => apply h.packages hc

end Cause

namespace Arises

variable {c : Cause}

theorem met (h : Arises s t c) :
  c.Met t
  := by
  cases h with
  | first _ hroot => apply hroot
  | again _ _ hrel => apply hrel

theorem not_met (h : Arises s t c) :
  ¬c.Met s
  := by
  cases h with
  | first hroot _ => simp [Cause.Met, hroot]
  | again _ hrel _ => apply hrel

/-- Of the first state only the requirements matter. -/
theorem of_eq (hrequirements : u.requirements = s.requirements) (h : Arises s t c) :
  Arises u t c
  := by
  cases h with
  | first hnone hroot =>
    apply Arises.first _ hroot
    rw [hrequirements]
    apply hnone
  | again hchosen hnone hrel =>
    apply Arises.again hchosen _ hrel
    rw [packages, hrequirements]
    apply hnone

theorem congr (hrequirements : u.requirements = s.requirements) :
  Arises u t c ↔ Arises s t c
  := ⟨of_eq hrequirements.symm, of_eq hrequirements⟩

/-- What arises on a way, on the last part of which nothing is chosen, arises on one of its
parts. -/
theorem trans_iff (h : Extends s t) (h' : Extends t u) (hchosen : u.chosen = t.chosen) :
  Arises s u c ↔ Arises s t c ∨ Arises t u c
  := by
  constructor
  · intro hc
    cases hc with
    | @first root hnone hroot =>
      cases hmid : t.requirements.contains root with
      | true => apply Or.inl (.first hnone hmid)
      | false => apply Or.inr (.first hmid hroot)
    | @again root rel hsettled hnone hrel =>
      by_cases hmid : rel ∈ t.packages root
      · rw [hchosen] at hsettled
        apply Or.inl (.again hsettled hnone hmid)
      · apply Or.inr (.again hsettled hmid hrel)
  · rintro (hc | hc)
    · cases hc with
      | first hnone hroot => apply Arises.first hnone (h'.contains hroot)
      | again hsettled hnone hrel =>
        rw [← hchosen] at hsettled
        apply Arises.again hsettled hnone (h'.packages hrel)
    · cases hc with
      | first hnone hroot =>
        apply Arises.first _ hroot
        rw [Bool.eq_false_iff] at hnone ⊢
        intro hcontains
        apply hnone (h.contains hcontains)
      | again hsettled hnone hrel =>
        apply Arises.again hsettled _ hrel
        intro hmem
        apply hnone (h.packages hmem)

end Arises

namespace Queues

/-- Where neither requirements nor queue change, nothing is caused. -/
theorem of_eq (hrequirements : t.requirements = s.requirements) (hqueue : t.queue = s.queue) :
  Queues s t []
  where
  queue := by simp [hqueue]
  nodup := List.nodup_nil
  mem_iff c := by
    rw [← Arises.congr hrequirements]
    constructor
    · intro hc
      cases hc
    · intro hc
      apply absurd hc.met hc.not_met

/-- Of the first state only requirements and queue matter. -/
theorem of_marked (hrequirements : u.requirements = s.requirements) (hqueue : u.queue = s.queue)
    (h : Queues u t causes) :
  Queues s t causes
  where
  queue := by rw [h.queue, hqueue]
  nodup := h.nodup
  mem_iff c := by rw [h.mem_iff, Arises.congr hrequirements]

/-- What is met before some work is not caused by it. -/
theorem disjoint (hmet : ∀ c ∈ causes, c.Met s) (h : Queues s t new) :
  causes.Disjoint new
  := fun c hc hnew => ((h.mem_iff c).1 hnew).not_met (hmet c hc)

theorem trans (hextends : Extends s t) (hextends' : Extends t u) (hchosen : u.chosen = t.chosen)
    (h : Queues s t causes) (h' : Queues t u new) :
  Queues s u (causes ++ new)
  where
  queue := by rw [h'.queue, h.queue, List.map_append, List.append_assoc]
  nodup := by
    apply List.Nodup.append h.nodup h'.nodup
    apply h'.disjoint
    intro c hc
    apply ((h.mem_iff c).1 hc).met
  mem_iff c := by
    rw [List.mem_append, h.mem_iff, h'.mem_iff, Arises.trans_iff hextends hextends' hchosen]

end Queues

/-! ### Moves -/

/-- The cause of an entry for a project when it is required. -/
def firstCause (s : SolveState) (root : ProjectRoot) : List Cause :=
  if s.requirements.contains root then [] else [.first root]

/-- The cause of an entry for a project when a package is required of it. -/
def againCause (s : SolveState) (root : ProjectRoot) (rel : String) : List Cause :=
  if s.chosen.contains root && rel ∉ s.packages root then [.again root rel] else []

theorem mem_firstCause {c : Cause} :
  c ∈ firstCause s root ↔ s.requirements.contains root = false ∧ c = .first root
  := by
  unfold firstCause
  cases s.requirements.contains root <;> simp

theorem mem_againCause {rel : String} {c : Cause} :
  c ∈ againCause s root rel ↔
    s.chosen.contains root = true ∧ rel ∉ s.packages root ∧ c = .again root rel
  := by
  unfold againCause
  split
  next h =>
    rw [Bool.and_eq_true, decide_eq_true_eq] at h
    simp [h]
  next h =>
    rw [Bool.and_eq_true, decide_eq_true_eq] at h
    constructor
    · intro hc
      cases hc
    · rintro ⟨hchosen, hrel, -⟩
      apply absurd ⟨hchosen, hrel⟩ h

theorem queue_require_eq (s : SolveState) (root : ProjectRoot) :
  (s.require root).queue = s.queue ++ (firstCause s root).map Cause.root
  := by
  rw [queue_require, firstCause]
  split
  next => simp
  next => rfl

theorem nodup_firstCause (s : SolveState) (root : ProjectRoot) :
  (firstCause s root).Nodup
  := by
  unfold firstCause
  split <;> simp

/-- Requiring a project and changing its requirement, but not the packages, queues it if it was not
required. -/
theorem queues_require_modify {f : Requirement → Requirement}
    (hf : ∀ r, (f r).packages = r.packages) :
  Queues s ((s.require root).modify root f) (firstCause s root)
  where
  queue := by rw [queue_modify, queue_require_eq]
  nodup := nodup_firstCause s root
  mem_iff c := by
    rw [mem_firstCause]
    constructor
    · rintro ⟨hnone, rfl⟩
      apply Arises.first hnone
      rw [contains_require_modify, decide_eq_true rfl, Bool.true_or]
    · intro hc
      cases hc with
      | @first root' hnone hroot' =>
        rw [contains_require_modify, hnone, Bool.or_false, decide_eq_true_eq] at hroot'
        subst hroot'
        use hnone
      | again _ hnone hrel =>
        rw [packages_require_modify hf] at hrel
        apply absurd hrel hnone

/-- Using a package queues its project if that was not required, and again if it is settled and the
package new. -/
theorem queues_use (s : SolveState) (root : ProjectRoot) (rel : String) :
  Queues s (s.use root rel) (firstCause s root ++ againCause s root rel)
  where
  queue := by
    rw [SolveState.use, againCause, List.map_append, ← List.append_assoc, ← queue_require_eq]
    split
    next => simp [requirePackage, Cause.root]
    next => simp [requirePackage]
  nodup := by
    apply List.Nodup.append (nodup_firstCause s root)
    · unfold againCause
      split <;> simp
    · intro c hfirst hagain
      obtain ⟨-, rfl⟩ := mem_firstCause.1 hfirst
      obtain ⟨-, -, heq⟩ := mem_againCause.1 hagain
      cases heq
  mem_iff c := by
    rw [List.mem_append, mem_firstCause, mem_againCause]
    constructor
    · rintro (⟨hnone, rfl⟩ | ⟨hchosen, hrel, rfl⟩)
      · apply Arises.first hnone
        rw [requirements_use, requirePackage, contains_require_modify, decide_eq_true rfl,
          Bool.true_or]
      · apply Arises.again _ hrel (mem_packages_use s root rel)
        rw [chosen_use]
        apply hchosen
    · intro hc
      cases hc with
      | @first root' hnone hroot' =>
        rw [requirements_use, requirePackage, contains_require_modify, hnone, Bool.or_false,
          decide_eq_true_eq] at hroot'
        subst hroot'
        exact .inl ⟨hnone, rfl⟩
      | @again root' rel' hchosen hnone hrel' =>
        rw [chosen_use] at hchosen
        rw [packages_use] at hrel'
        split at hrel'
        next heq =>
          subst heq
          rcases mem_insertSorted.1 hrel' with rfl | hrel'
          · exact .inr ⟨hchosen, hnone, rfl⟩
          · apply absurd hrel' hnone
        next => apply absurd hrel' hnone

theorem Move.exists_queues (h : sv.Move p s t) :
  ∃ causes, Queues s t causes
  := by
  cases h with
  | tell log => exact ⟨_, .of_eq rfl rfl⟩
  | use => exact ⟨_, queues_use _ _ _⟩
  | lock => exact ⟨_, queues_require_modify fun _ => rfl⟩
  | constrain => exact ⟨_, queues_require_modify fun _ => rfl⟩
  | demand => exact ⟨_, queues_require_modify fun _ => rfl⟩

theorem Moves.exists_queues (h : sv.Moves p s t) :
  ∃ causes, Queues s t causes
  := by
  induction h with
  | refl => exact ⟨_, .of_eq rfl rfl⟩
  | tail hmoves hmove ih =>
    obtain ⟨causes, hcauses⟩ := ih
    obtain ⟨new, hnew⟩ := hmove.exists_queues
    have hgrows := hmove.grows
    exact ⟨_, hcauses.trans (Moves.grows hmoves).extension hgrows.extension hgrows.chosen hnew⟩

/-! ### Steps -/

/-- The work on the checkout of a project is a sequence of moves, after packages are marked as
followed. -/
theorem exists_moves_follow (h : sv.follow p root s = .ok t) :
  ∃ followed : SortedSet String, sv.Moves p { s with followed } t
  := by
  rw [follow] at h
  split at h
  next lister directory hlister hdirectory =>
    obtain ⟨followed, -, hmoves, -⟩ := followImports_spec hlister hdirectory h
    exact ⟨followed, hmoves⟩
  next =>
    cases h
    exact ⟨s.followed, .refl⟩

theorem chosen_follow (h : sv.follow p root s = .ok t) :
  t.chosen = s.chosen
  := by
  obtain ⟨followed, hmoves⟩ := exists_moves_follow h
  apply hmoves.grows.chosen

theorem extends_of_follow (h : sv.follow p root s = .ok t) :
  Extends s t
  := by
  obtain ⟨followed, hmoves⟩ := exists_moves_follow h
  have hmarked : Extends s { s with followed } := .of_eq rfl rfl
  apply hmarked.trans hmoves.grows.extension

theorem exists_queues_follow (h : sv.follow p root s = .ok t) :
  ∃ causes, Queues s t causes
  := by
  obtain ⟨followed, hmoves⟩ := exists_moves_follow h
  obtain ⟨causes, hcauses⟩ := hmoves.exists_queues
  use causes
  apply Queues.of_marked _ _ hcauses
  · rfl
  · rfl

theorem exists_queues_settle {r : Requirement} (h : sv.settle p root r s = .ok t) :
  ∃ causes, Queues s t causes
  := by
  obtain ⟨v, -, hmoves, -⟩ := settle_spec h
  obtain ⟨causes, hcauses⟩ := hmoves.exists_queues
  use causes
  apply Queues.of_marked _ _ hcauses
  · rfl
  · rfl

theorem extends_of_step (h : sv.step p root s = .ok t) :
  Extends s t
  := by
  rcases step_cases h with ⟨-, rfl⟩ | ⟨r, u, -, hfollow, ⟨-, rfl⟩ | ⟨hchosen, hsettle⟩⟩
  · apply Extends.refl
  · apply extends_of_follow hfollow
  · apply (extends_of_settle hchosen hsettle).trans (extends_of_follow hfollow)

/-- A state is extended by a step that takes a project off its queue. -/
theorem extends_of_pop (h : sv.step p root { s with queue } = .ok t) :
  Extends s t
  := by
  have hpop : Extends s { s with queue } := .of_eq rfl rfl
  apply hpop.trans (extends_of_step h)

/-- A step queues what the causes that arise in it ask for. -/
theorem exists_queues_step (h : sv.step p root s = .ok t) :
  ∃ causes, Queues s t causes
  := by
  rcases step_cases h with ⟨-, rfl⟩ | ⟨r, u, -, hfollow, ⟨-, rfl⟩ | ⟨hchosen, hsettle⟩⟩
  · exact ⟨_, .of_eq rfl rfl⟩
  · apply exists_queues_follow hfollow
  · obtain ⟨causes, hcauses⟩ := exists_queues_settle hsettle
    obtain ⟨new, hnew⟩ := exists_queues_follow hfollow
    exact ⟨_, hcauses.trans (extends_of_settle hchosen hsettle) (extends_of_follow hfollow)
      (chosen_follow hfollow) hnew⟩

/-! ### Histories -/

/-- How a solve gets to a state: the projects that came up so far, one after the other, and the
causes for which projects were put into the queue. -/
inductive History (sv : Solver) (p : SolveProblem) :
    List ProjectRoot → List Cause → SolveState → Prop where
  | start {s : SolveState} {causes : List Cause} :
      sv.start p = .ok s → Queues {} s causes → History sv p [] causes s
  | step {s t : SolveState} {came queue : List ProjectRoot} {causes new : List Cause}
      {root : ProjectRoot} :
      History sv p came causes s → s.queue = root :: queue →
      sv.step p root { s with queue } = .ok t → Queues { s with queue } t new →
      History sv p (came ++ [root]) (causes ++ new) t

/-- Every start begins a history. -/
theorem exists_history (h : sv.start p = .ok s) :
  ∃ causes, sv.History p [] causes s
  := by
  obtain ⟨hmoves, -⟩ := start_spec h
  obtain ⟨causes, hcauses⟩ := hmoves.exists_queues
  exact ⟨causes, .start h hcauses⟩

namespace History

/-- Every step continues a history. -/
theorem exists_step (h : sv.History p came causes s) (hqueue : s.queue = root :: queue)
    (ht : sv.step p root { s with queue } = .ok t) :
  ∃ new, sv.History p (came ++ [root]) (causes ++ new) t
  := by
  obtain ⟨new, hnew⟩ := exists_queues_step ht
  exact ⟨new, .step h hqueue ht hnew⟩

/-- What caused entries of the queue is required. -/
theorem met (h : sv.History p came causes s) :
  ∀ c ∈ causes, c.Met s
  := by
  induction h with
  | start _ hcauses =>
    intro c hc
    apply ((hcauses.mem_iff c).1 hc).met
  | step _ _ ht hnew ih =>
    rw [List.forall_mem_append]
    constructor
    · intro c hc
      apply (ih c hc).mono (extends_of_pop ht)
    · intro c hc
      apply ((hnew.mem_iff c).1 hc).met

/-- No cause puts a project into the queue twice. -/
theorem nodup (h : sv.History p came causes s) :
  causes.Nodup
  := by
  induction h with
  | start _ hcauses => apply hcauses.nodup
  | step hs _ _ hnew ih =>
    apply List.Nodup.append ih hnew.nodup
    apply hnew.disjoint
    apply hs.met

/-- What came up and what is in the queue was put there by the causes, in their order. -/
theorem came_append (h : sv.History p came causes s) :
  came ++ s.queue = causes.map Cause.root
  := by
  induction h with
  | start _ hcauses =>
    rw [hcauses.queue]
    rfl
  | step _ hqueue _ hnew ih =>
    rw [List.map_append, ← ih, hqueue, hnew.queue]
    simp

end History
end DepLock.Solver
