import DepLock.Proofs.Solve.Origin

/-!
# Versions that are kept

A locked version to which no rule in force objects is kept, whatever else a solve chooses. If a
solve fails, it is not over a project of which this is known of all checkouts.
-/

namespace DepLock

/-- Whether an error is about the version of a project. -/
def SolveError.IsAbout (root : ProjectRoot) : SolveError → Prop
  | noMatchingVersion project _ _ => project = root
  | listVersions project _ => project = root
  | deduceRoot _ _ => False

namespace SourceManager

variable {sm : SourceManager} {id : ProjectId} {demands : List Demand} {lock : Lock}

/-- An error of a selection is about the project that it is made for. -/
theorem root_of_select_error {e : SolveError} {root : ProjectRoot}
    (h : sm.select id demands lock = .error e) (habout : e.IsAbout root) :
  root = id.root
  := by
  unfold select at h
  split at h
  next => cases h
  next =>
    split at h
    next =>
      simp only at h
      split at h
      next => cases h
      next =>
        cases h
        apply habout.symm
    next =>
      split at h
      next =>
        cases h
        apply habout.symm
      next =>
        simp only at h
        split at h
        next => cases h
        next =>
          cases h
          apply habout.symm

end SourceManager

namespace Solver

open SolveState

variable {sv : Solver} {p : SolveProblem} {s t u : SolveState} {root dep : ProjectRoot}
  {v w : Version} {id : ProjectId} {budget : Nat} {f : SolveFailure}

/-- Whether a version of a project is admitted by the override of the project, or if there is none,
by the rule for it in the manifest and by those in the manifests of other checkouts among some
projects. -/
structure Unopposed (sv : Solver) (p : SolveProblem) (among : ProjectRoot → Prop)
    (root : ProjectRoot) (v : Version) : Prop where
  override : ∀ rule, p.manifest.overrides.get? root = some rule → rule.constraint.admits v = true
  constraint : p.manifest.overrides.contains root = false →
    ∀ rule, p.manifest.constraints.get? root = some rule → rule.constraint.admits v = true
  declared : p.manifest.overrides.contains root = false →
    ∀ dep rule, among dep → dep ≠ root → sv.Declares dep root rule →
      rule.constraint.admits v = true

theorem Unopposed.mono {among among' : ProjectRoot → Prop} (h : sv.Unopposed p among' root v)
    (himp : ∀ dep, among dep → among' dep) :
  sv.Unopposed p among root v
  where
  override := h.override
  constraint := h.constraint
  declared hover dep rule hdep := h.declared hover dep rule (himp dep hdep)

/-! ### Choices -/

/-- A version to which no rule so far objects meets the demands that count. -/
theorem Unopposed.meets (h : sv.Unopposed p (fun dep => s.chosen.contains dep = true) root v)
    (haccounted : sv.Accounted p s) {r : Requirement} (hr : s.requirements.get? root = some r) :
  v.meets (effective p root r).2 = true
  := by
  rw [Version.meets_iff]
  intro d hd
  cases ho : p.manifest.overrides.get? root with
  | some o =>
    simp only [effective, ho] at hd
    split at hd
    · cases hd
    · obtain rfl := List.mem_singleton.1 hd
      apply h.override o ho
  | none =>
    have hover := SortedMap.contains_eq_false_iff.2 ho
    rw [demands_effective hover] at hd
    have hasked : d ∈ (asked s root).demands := by
      rw [asked, hr]
      apply hd
    rcases haccounted root d hasked with ⟨rule, hrule, rfl⟩ | ⟨dep, rule, hdep, hother, hrule, rfl⟩
    · apply h.constraint hover rule hrule
    · apply h.declared hover dep rule hdep hother hrule

/-- A locked version to which no rule so far objects is selected. -/
theorem Unopposed.select {e : LockedProject} (he : p.lock.get? root = some e)
    (h : sv.Unopposed p (fun dep => s.chosen.contains dep = true) root e.version)
    (haccounted : sv.Accounted p s) {r : Requirement} (hr : s.requirements.get? root = some r) :
  sv.sources.select (effective p root r).1 (effective p root r).2 p.lock = .ok e.version
  := by
  apply SourceManager.select_of_locked _ (h.meets haccounted hr)
  rw [root_effective, he]

/-- What is chosen of a project is the locked version to which no rule so far objects. -/
theorem Unopposed.chosen {e : LockedProject} (he : p.lock.get? root = some e)
    (h : sv.Unopposed p (fun dep => s.chosen.contains dep = true) root e.version)
    (haccounted : sv.Accounted p s) {pending : List ProjectRoot}
    (hconsistent : sv.Consistent p pending s) (hw : s.chosen.get? root = some (id, w)) :
  w = e.version
  := by
  obtain ⟨r, hr, rfl, hselect⟩ := hconsistent.selected root id w hw
  rw [h.select he haccounted hr] at hselect
  cases hselect
  rfl

/-- A state that is reached from the start has all demands from rules. -/
theorem accounted_of_start (h : sv.start p = .ok s) :
  sv.Accounted p s
  := by
  obtain ⟨hmoves, -⟩ := start_spec h
  apply (persists_accounted sv p).moves hmoves
  simp [Accounted, asked]

/-- A solution has a locked project at the locked version if neither the manifest nor another
checkout in the solution objects. -/
theorem exists_kept {solution : List LockedProject} {log : Log}
    (h : sv.solve p budget = some ⟨.ok solution, log⟩) {e : LockedProject}
    (he : p.lock.get? root = some e)
    (hunopposed : sv.Unopposed p (fun dep => ∃ q ∈ solution, q.root = dep) root e.version) :
  ∃ q ∈ solution, q.root = root ∧ q.version = e.version
  := by
  obtain ⟨s, t, hs, hrun, hextends, hfinished, rfl⟩ := exists_run h
  have haccounted := (persists_accounted sv p).run hrun (accounted_of_start hs)
  obtain ⟨-, -, hinitial⟩ := start_spec hs
  have hlocked : p.lock.contains root = true := by
    rw [Lock.contains, he]
    rfl
  have hrequired := hextends.contains (hinitial root (.inr hlocked)).1
  obtain ⟨q, hq, rfl, -⟩ := hfinished.exists_mem hrequired
  obtain ⟨hchosen, -⟩ := hfinished.of_mem hq
  have hagreed : sv.Unopposed p (fun dep => t.chosen.contains dep = true) q.root e.version := by
    apply hunopposed.mono
    intro dep hdep
    obtain ⟨⟨id, v⟩, hv⟩ := SortedMap.contains_iff.1 hdep
    obtain ⟨r, hr, -⟩ := hfinished.consistent.selected dep id v hv
    obtain ⟨q', hq', hroot, -⟩ := hfinished.exists_mem (SortedMap.contains_of_get? hr)
    exact ⟨q', hq', hroot⟩
  use q, hq, rfl, hagreed.chosen he haccounted hfinished.consistent hchosen

/-- Nothing in a solution objects to a version exactly if all rules in force admit it. -/
theorem unopposed_iff {solution : List LockedProject} :
  sv.Unopposed p (fun dep => ∃ q ∈ solution, q.root = dep) root v ↔
    ∀ rule, sv.Imposed p solution root rule → rule.constraint.admits v = true
  := by
  constructor
  · rintro h rule (hrule | ⟨hover, hrule | ⟨q, hq, hother, hrule⟩⟩)
    · apply h.override rule hrule
    · apply h.constraint hover rule hrule
    · apply h.declared hover q.root rule ⟨q, hq, rfl⟩ hother hrule
  · intro h
    constructor
    · intro rule hrule
      apply h rule (.inl hrule)
    · intro hover rule hrule
      apply h rule (.inr ⟨hover, .inl hrule⟩)
    · rintro hover dep rule ⟨q, hq, rfl⟩ hother hrule
      apply h rule (.inr ⟨hover, .inr ⟨q, hq, hother, hrule⟩⟩)

/-- All rules in force for a project that is required at the start admit the version that is chosen
of it, unless it is the root project, over which dependencies have no say. -/
theorem admits_of_imposed {solution : List LockedProject} {log : Log}
    (h : sv.solve p budget = some ⟨.ok solution, log⟩) {q : LockedProject} (hq : q ∈ solution)
    (hinitial : sv.Initial p q.root) (hhome : q.root ≠ p.root) {rule : ProjectRule}
    (hrule : sv.Imposed p solution q.root rule) :
  rule.constraint.admits q.version = true
  := by
  obtain ⟨s, t, hs, hextends, hfinished, rfl⟩ := exists_finished h
  rcases hrule with hrule | ⟨hover, hrule | ⟨dep, hdep, hother, hrule⟩⟩
  · apply hfinished.admits_of_override hq hrule
  · obtain ⟨-, -, hstart⟩ := start_spec hs
    obtain ⟨-, hjoined⟩ := hstart q.root hinitial
    apply hfinished.admits_of_joined hq hover ((hjoined rule hrule).mono hextends)
  · obtain ⟨hchosen, -⟩ := hfinished.of_mem hdep
    have hheld := hfinished.complete.held dep.root q.root rule (SortedMap.contains_of_get? hchosen)
      hrule hhome hother.symm
    obtain ⟨q', hq', hroot, hadmits⟩ := hfinished.exists_of_held hheld
    rw [← hfinished.eq_of_mem hq' hq hroot]
    apply hadmits hover

/-- A solution has each locked project once, and at the locked version if all rules in force for the
project admit it. Only the root project may be at its locked version otherwise. -/
theorem locked_version_kept {solution : List LockedProject} {log : Log}
    (h : sv.solve p budget = some ⟨.ok solution, log⟩) {e : LockedProject}
    (he : p.lock.get? root = some e) :
  ∃ q ∈ solution, q.root = root ∧ (∀ q' ∈ solution, q'.root = root → q' = q) ∧
    ((∀ rule, sv.Imposed p solution root rule → rule.constraint.admits e.version = true) →
      q.version = e.version) ∧
    (root ≠ p.root → q.version = e.version →
      ∀ rule, sv.Imposed p solution root rule → rule.constraint.admits e.version = true)
  := by
  obtain ⟨s, t, hs, hextends, hfinished, rfl⟩ := exists_finished h
  have hlocked : p.lock.contains root = true := by
    rw [Lock.contains, he]
    rfl
  obtain ⟨-, -, hstart⟩ := start_spec hs
  obtain ⟨q, hq, rfl, -⟩ :=
    hfinished.exists_mem (hextends.contains (hstart root (.inr hlocked)).1)
  refine ⟨q, hq, rfl, fun q' hq' => hfinished.eq_of_mem hq' hq, ?_, ?_⟩
  · intro hrules
    obtain ⟨q', hq', hroot, hversion⟩ := exists_kept h he (unopposed_iff.2 hrules)
    rw [← hfinished.eq_of_mem hq' hq hroot]
    apply hversion
  · intro hhome hversion rule hrule
    rw [← hversion]
    apply admits_of_imposed h hq (.inr hlocked) hhome hrule

/-- The locked version is kept under the constraint of the manifest, which admits it. -/
theorem locked_version_kept_sample :
  Sample.solver.solve Sample.problem 2 = some ⟨.ok Sample.chosen, []⟩ ∧
    Sample.problem.lock.get? Sample.alpha = some ⟨⟨Sample.alpha, none⟩, Sample.new, ["."]⟩ ∧
    Sample.solver.Imposed Sample.problem Sample.chosen Sample.alpha
      { constraint := .plain "new" } ∧
    (∀ rule, Sample.solver.Imposed Sample.problem Sample.chosen Sample.alpha rule →
      rule.constraint.admits Sample.new = true) ∧
    ∃ q ∈ Sample.chosen, q.root = Sample.alpha ∧ q.version = Sample.new
  := by
  have hlock : Sample.problem.lock.get? Sample.alpha
      = some ⟨⟨Sample.alpha, none⟩, Sample.new, ["."]⟩ := rfl
  have hrules : ∀ rule, Sample.solver.Imposed Sample.problem Sample.chosen Sample.alpha rule →
      rule.constraint.admits Sample.new = true := by
    rintro rule (hrule | ⟨-, hrule | ⟨q, hq, hother, directory, _, _, hdirectory, -⟩⟩)
    · cases hrule
    · cases hrule
      rfl
    · -- no other project is checked out
      simp [Sample.solver, hother] at hdirectory
  obtain ⟨q, hq, hroot, -, hkept, -⟩ := locked_version_kept Sample.solve_problem hlock
  exact ⟨Sample.solve_problem, hlock, .inr ⟨rfl, .inl rfl⟩, hrules, q, hq, hroot, hkept hrules⟩

/-! ### Failures -/

/-- Requiring the imports of a problem fails only when a root cannot be deduced. -/
theorem error_of_requireImports {paths : List String}
    (h : sv.requireImports p paths s = .error f) :
  ∃ path cause, f.error = .deduceRoot path cause
  := by
  induction paths generalizing s with
  | nil => cases h
  | cons path paths ih =>
    rw [requireImports] at h
    split at h
    next => apply ih h
    next =>
      split at h
      next cause _ =>
        cases h
        exact ⟨path, cause, rfl⟩
      next => apply ih h

/-- Requiring the imports of a checkout fails only when a root cannot be deduced. -/
theorem error_of_requireFrom {paths : List String}
    (h : sv.requireFrom p root paths s = .error f) :
  ∃ path cause, f.error = .deduceRoot path cause
  := by
  induction paths generalizing s with
  | nil => cases h
  | cons path paths ih =>
    rw [requireFrom] at h
    split at h
    next => apply ih h
    next =>
      split at h
      next cause _ =>
        cases h
        exact ⟨path, cause, rfl⟩
      next => apply ih h

theorem error_of_follow (h : sv.follow p root s = .error f) :
  ∃ path cause, f.error = .deduceRoot path cause
  := by
  rw [follow] at h
  split at h
  next => apply error_of_requireFrom h
  next => cases h

/-- Whether an error is that one of some rules does not admit the version that is chosen of another
project, which is not overridden. -/
def Opposes (p : SolveProblem) (s : SolveState) (root : ProjectRoot)
    (rules : ProjectRoot → ProjectRule → Prop) (error : SolveError) : Prop :=
  ∃ dep rule id w demands, rules dep rule ∧ dep ≠ root ∧ s.chosen.get? dep = some (id, w) ∧
    p.manifest.overrides.contains dep = false ∧ rule.constraint.admits w = false ∧
    error = .noMatchingVersion id.root demands [w]

theorem Opposes.mono {rules rules' : ProjectRoot → ProjectRule → Prop} {error : SolveError}
    (h : Opposes p s root rules error) (hchosen : ∀ dep, dep ≠ root →
      t.chosen.get? dep = s.chosen.get? dep)
    (himp : ∀ dep rule, rules dep rule → rules' dep rule) :
  Opposes p t root rules' error
  := by
  obtain ⟨dep, rule, id, w, demands, hrule, hother, hw, hrest⟩ := h
  rw [← hchosen dep hother] at hw
  exact ⟨dep, rule, id, w, demands, himp dep rule hrule, hother, hw, hrest⟩

/-- Following rules fails only when one of them does not admit what is chosen. -/
theorem error_of_joinRules {rules : List (ProjectRoot × ProjectRule)}
    (h : joinRules p root rules s = .error f) :
  Opposes p s root (fun dep rule => (dep, rule) ∈ rules) f.error
  := by
  induction rules generalizing s with
  | nil => cases h
  | cons e rules ih =>
    obtain ⟨dep, rule⟩ := e
    -- a later rule that fails is one of all rules
    have hlater {s' : SolveState} (hchosen : s'.chosen = s.chosen)
        (hs' : joinRules p root rules s' = .error f) :
        Opposes p s root (fun dep' rule' => (dep', rule') ∈ (dep, rule) :: rules) f.error := by
      apply (ih hs').mono
      · intro _ _
        rw [hchosen]
      · exact fun _ _ => List.mem_cons_of_mem _
    rw [joinRules] at h
    split at h
    next => apply hlater rfl h
    next hother =>
      rw [not_or] at hother
      split at h
      next id w hw =>
        split at h
        next => apply hlater rfl h
        next hopposed =>
          rw [Bool.or_eq_true, not_or, Bool.not_eq_true, Bool.not_eq_true] at hopposed
          cases h
          exact ⟨dep, rule, id, w, _, List.mem_cons_self, hother.2, hw, hopposed.1, hopposed.2, rfl⟩
      next => apply hlater (by simp) h

/-- Settling a project fails because no version can be selected, or because the manifest of its
checkout does not admit what is chosen of another project. -/
theorem error_of_settle {r : Requirement} (h : sv.settle p root r s = .error f) :
  sv.sources.select (effective p root r).1 (effective p root r).2 p.lock = .error f.error ∨
    Opposes p s root (sv.Declares root) f.error
  := by
  simp only [settle] at h
  split at h
  next e he =>
    cases h
    exact .inl he
  next v hv =>
    right
    split at h
    next directory hdirectory =>
      simp only [followManifest] at h
      split at h
      next => cases h
      next manifest lock hderive =>
        apply (error_of_joinRules h).mono
        · intro dep hother
          rw [SortedMap.get?_insert_of_ne _ _ hother]
        · intro dep rule hmem
          have hrule : manifest.constraints.get? dep = some rule :=
            SortedMap.get?_eq_some_iff.2 hmem
          exact ⟨directory, manifest, lock, hdirectory, hderive, hrule⟩
    next => cases h

/-- A step fails when the project that comes up cannot be settled, or when a root cannot be
deduced. -/
theorem error_of_step (h : sv.step p root s = .error f) :
  (∃ r, s.requirements.get? root = some r ∧ sv.settle p root r s = .error f) ∨
    ∃ path cause, f.error = .deduceRoot path cause
  := by
  rw [step] at h
  split at h
  next => cases h
  next r hr =>
    cases hchosen : s.chosen.contains root with
    | true =>
      rw [hchosen] at h
      exact .inr (error_of_follow h)
    | false =>
      rw [hchosen] at h
      cases hu : sv.settle p root r s with
      | error f' =>
        rw [hu] at h
        cases h
        exact .inl ⟨r, hr, hu⟩
      | ok u =>
        rw [hu] at h
        exact .inr (error_of_follow h)

/-- A run that fails does so in a step, before which the invariants of a solve hold. -/
theorem exists_step_of_run_error (hconsistent : sv.Consistent p [] s) (hcomplete : sv.Complete p s)
    (haccounted : sv.Accounted p s) (h : sv.run p budget s = some (.error f)) :
  ∃ t root, sv.Consistent p [root] t ∧ sv.Accounted p t ∧ sv.step p root t = .error f
  := by
  induction budget generalizing s with
  | zero =>
    rw [run] at h
    split at h
    next => cases h
    next => cases h
  | succ budget ih =>
    rw [run] at h
    split at h
    next => cases h
    next root queue hqueue =>
      have hpopped := hconsistent.pop hqueue
      have hsame : sv.Complete p { s with queue } := hcomplete.extend (.of_eq rfl rfl) rfl rfl
      simp only at h
      split at h
      next f' hf =>
        cases h
        exact ⟨{ s with queue }, root, hpopped, haccounted, hf⟩
      next u hu =>
        obtain ⟨-, hconsistent', hcomplete'⟩ := step_spec hpopped hsame hu
        apply ih hconsistent' hcomplete' ((persists_accounted sv p).step hu haccounted) h

/-- A start fails only when a root cannot be deduced. -/
theorem error_of_start (h : sv.start p = .error f) :
  ∃ path cause, f.error = .deduceRoot path cause
  := by
  rw [start] at h
  cases ht : sv.requireImports p p.externalImports {} with
  | error f' =>
    rw [ht] at h
    cases h
    apply error_of_requireImports ht
  | ok t =>
    rw [ht] at h
    cases h

/-- A step does not fail over a project at whose locked version neither the manifest nor any other
checkout objects. -/
theorem Unopposed.not_isAbout_of_step {e : LockedProject} (he : p.lock.get? root = some e)
    (h : sv.Unopposed p (fun _ => True) root e.version) (hconsistent : sv.Consistent p [dep] s)
    (haccounted : sv.Accounted p s) (hstep : sv.step p dep s = .error f) :
  ¬ f.error.IsAbout root
  := by
  have hagreed : sv.Unopposed p (fun dep => s.chosen.contains dep = true) root e.version :=
    h.mono fun _ _ => trivial
  intro habout
  rcases error_of_step hstep with ⟨r, hr, hsettle⟩ | ⟨path, cause, herror⟩
  · rcases error_of_settle hsettle with
      hselect | ⟨dep', rule, id, w, demands, hrule, hother, hw, hover, hopposed, herror⟩
    · -- the project itself comes up, and its version is selected
      have heq := SourceManager.root_of_select_error hselect habout
      rw [root_effective] at heq
      subst heq
      rw [hagreed.select he haccounted hr] at hselect
      cases hselect
    · -- the project is chosen, and the checkout that comes up does not object to it
      obtain ⟨r', -, hid, -⟩ := hconsistent.selected dep' id w hw
      rw [herror] at habout
      have heq : id.root = root := habout
      rw [hid, root_effective] at heq
      subst heq
      obtain rfl := hagreed.chosen he haccounted hconsistent hw
      rw [h.declared hover dep rule trivial hother.symm hrule] at hopposed
      cases hopposed
  · rw [herror] at habout
    apply habout

/-- A solve does not fail over a project at whose locked version neither the manifest nor any other
checkout objects. -/
theorem not_isAbout_of_error {error : SolveError} {log : Log}
    (h : sv.solve p budget = some ⟨.error error, log⟩) {e : LockedProject}
    (he : p.lock.get? root = some e)
    (hunopposed : sv.Unopposed p (fun _ => True) root e.version) :
  ¬ error.IsAbout root
  := by
  rw [solve] at h
  split at h
  next f hf =>
    cases h
    obtain ⟨path, cause, herror⟩ := error_of_start hf
    rw [herror]
    exact not_false
  next s hs =>
    obtain ⟨r, hr, hresult⟩ := Option.map_eq_some_iff.1 h
    split at hresult
    next f =>
      cases hresult
      obtain ⟨hmoves, -⟩ := start_spec hs
      obtain ⟨t, dep, hconsistent, haccounted, hstep⟩ := exists_step_of_run_error
        (Consistent.empty.moves hmoves) (Complete.empty.moves hmoves) (accounted_of_start hs) hr
      apply hunopposed.not_isAbout_of_step he hconsistent haccounted hstep
    next => cases hresult

end Solver
end DepLock
