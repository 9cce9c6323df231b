import DepLock.Proofs.Solve.Retrace
import DepLock.Proofs.Source.Wellformed

/-!
# Where chosen versions come from

Every demand on a project is a rule of the manifest or of the manifest of a chosen checkout
(`Solver.persists_accounted`). A version is known for the id that it is chosen for if the lock has
it under this id, or if it is listed for it, or if it is found there for a revision that a rule pins.
The lock is looked up by the root alone, so there is one more way: a version is kept from an entry
with the same root and another source (`Solver.known_or_kept`).
-/

namespace DepLock

theorem Requirement.mem_demands_join {r : Requirement} {requiredBy : String} {rule : ProjectRule}
    {d : Demand} (h : d ∈ (r.join requiredBy rule).demands) :
  d ∈ r.demands ∨ d = ⟨requiredBy, rule.constraint⟩
  := by
  rw [join] at h
  split at h
  · apply Or.inl h
  · rwa [List.mem_append, List.mem_singleton] at h

namespace Solver

open SolveState

variable {sv : Solver} {p : SolveProblem} {s t : SolveState} {root dep : ProjectRoot}
  {q : LockedProject} {budget : Nat} {solution : List LockedProject} {log : Log}

/-! ### Where demands come from -/

/-- Whether a demand on a project is a constraint of the manifest, or a rule in the manifest of a
chosen checkout. -/
def Voiced (sv : Solver) (p : SolveProblem) (s : SolveState) (root : ProjectRoot) (d : Demand) :
    Prop :=
  (∃ rule, p.manifest.constraints.get? root = some rule ∧ d = ⟨p.root.text, rule.constraint⟩) ∨
    ∃ dep rule, s.chosen.contains dep = true ∧ dep ≠ root ∧ sv.Declares dep root rule ∧
      d = ⟨dep.text, rule.constraint⟩

theorem Voiced.mono {d : Demand} (h : sv.Voiced p s root d)
    (hchosen : ∀ root, s.chosen.contains root = true → t.chosen.contains root = true) :
  sv.Voiced p t root d
  := by
  rcases h with hrule | ⟨dep, rule, hdep, hother, hdeclares, heq⟩
  · apply Or.inl hrule
  · exact .inr ⟨dep, rule, hchosen dep hdep, hother, hdeclares, heq⟩

/-- Whether all demands are rules of manifests. -/
def Accounted (sv : Solver) (p : SolveProblem) (s : SolveState) : Prop :=
  ∀ root, ∀ d ∈ (asked s root).demands, sv.Voiced p s root d

/-- A requirement may be changed if all demands that come up are rules of manifests. -/
theorem Accounted.require_modify (h : sv.Accounted p s) {f : Requirement → Requirement}
    (hf : ∀ d ∈ (f (asked s root)).demands,
      d ∈ (asked s root).demands ∨ sv.Voiced p s root d) :
  sv.Accounted p ((s.require root).modify root f)
  := by
  intro root' d hd
  apply Voiced.mono (s := s) _ (by simp)
  rw [asked_require_modify] at hd
  split at hd
  next heq =>
    subst heq
    rcases hf d hd with hd | hvoiced
    · apply h root' d hd
    · apply hvoiced
  next => apply h root' d hd

/-- Throughout a solve, all demands are rules of manifests. -/
theorem persists_accounted (sv : Solver) (p : SolveProblem) :
  sv.Persists p (sv.Accounted p)
  where
  move := by
    intro s t hmove h
    cases hmove with
    | tell => apply h
    | @use path dep =>
      have hrequire : sv.Accounted p (s.requirePackage dep (dep.relative path)) :=
        h.require_modify fun _ => .inl
      intro root d hd
      rw [asked, requirements_use] at hd
      apply (hrequire root d hd).mono
      simp [requirePackage]
    | lock => apply h.require_modify fun _ => .inl
    | constrain hrule =>
      apply h.require_modify
      intro d hd
      apply (Requirement.mem_demands_join hd).imp_right
      rintro rfl
      exact .inl ⟨_, hrule, rfl⟩
    | demand hchosen hdeclares _ hother =>
      apply h.require_modify
      intro d hd
      apply (Requirement.mem_demands_join hd).imp_right
      rintro rfl
      exact .inr ⟨_, _, hchosen, hother.symm, hdeclares, rfl⟩
  of_eq := by
    intro s t hrequirements hchosen h root d hd
    rw [asked, hrequirements] at hd
    apply (h root d hd).mono hchosen

/-! ### Where versions come from -/

/-- Whether a rule is in force for a project: its override alone, if it has one, and otherwise the
constraint of the manifest and the rules in the manifests of the other checkouts of a solution. -/
def Imposed (sv : Solver) (p : SolveProblem) (solution : List LockedProject) (root : ProjectRoot)
    (rule : ProjectRule) : Prop :=
  p.manifest.overrides.get? root = some rule ∨
    (p.manifest.overrides.contains root = false ∧
      (p.manifest.constraints.get? root = some rule ∨
        ∃ q ∈ solution, q.root ≠ root ∧ sv.Declares q.root root rule))

/-- Whether the version of a project is known for its id: the lock has it under this id, it is
listed for the id, or it is what the id has for a revision that a rule pins. -/
inductive Known (sv : Solver) (p : SolveProblem) (solution : List LockedProject)
    (q : LockedProject) : Prop where
  | locked {e : LockedProject} : e ∈ p.lock.projects → e.id = q.id → e.version = q.version →
      Known sv p solution q
  | listed {versions : List Version} : sv.sources.listVersions q.id = .ok versions →
      q.version ∈ versions → Known sv p solution q
  | pinned {rule : ProjectRule} {r : Revision} : sv.Imposed p solution q.root rule →
      rule.constraint = .revision r → q.version = sv.sources.versionAt q.id none r →
      Known sv p solution q

/-- Each demand that counts for a project is a rule in force for it. -/
theorem Finished.imposed (h : sv.Finished p t) (haccounted : sv.Accounted p t) {r : Requirement}
    (hr : t.requirements.get? root = some r) {d : Demand} (hd : d ∈ (effective p root r).2) :
  ∃ rule, sv.Imposed p (Solver.solution p t) root rule ∧ d.constraint = rule.constraint
  := by
  cases ho : p.manifest.overrides.get? root with
  | some o =>
    simp only [effective, ho] at hd
    split at hd
    · cases hd
    · obtain rfl := List.mem_singleton.1 hd
      exact ⟨o, .inl ho, rfl⟩
  | none =>
    have hover := SortedMap.contains_eq_false_iff.2 ho
    rw [demands_effective hover] at hd
    have hasked : d ∈ (asked t root).demands := by
      rw [asked, hr]
      apply hd
    rcases haccounted root d hasked with ⟨rule, hrule, rfl⟩ | hdeclared
    · exact ⟨rule, .inr ⟨hover, .inl hrule⟩, rfl⟩
    · obtain ⟨dep, rule, hdep, hother, hdeclares, rfl⟩ := hdeclared
      obtain ⟨⟨id, v⟩, hv⟩ := SortedMap.contains_iff.1 hdep
      obtain ⟨r', hr', -⟩ := h.consistent.selected dep id v hv
      obtain ⟨q, hq, rfl, -⟩ := h.exists_mem (SortedMap.contains_of_get? hr')
      exact ⟨rule, .inr ⟨hover, .inr ⟨q, hq, hother, hdeclares⟩⟩, rfl⟩

/-- The version of each project of a solution is known for the id that it is chosen for, or it is
kept from the lock's entry for the root although that has another source. -/
theorem known_or_kept (h : sv.solve p budget = some ⟨.ok solution, log⟩) (hq : q ∈ solution) :
  sv.Known p solution q ∨
    ∃ e, p.lock.get? q.root = some e ∧ e.id.source ≠ q.id.source ∧ e.version = q.version
  := by
  obtain ⟨s, t, hs, hrun, -, hfinished, rfl⟩ := exists_run h
  obtain ⟨hmoves, -⟩ := start_spec hs
  have haccounted : sv.Accounted p t := by
    apply (persists_accounted sv p).run hrun
    apply (persists_accounted sv p).moves hmoves
    simp [Accounted, asked]
  obtain ⟨hchosen, -⟩ := hfinished.of_mem hq
  obtain ⟨r, hr, hid, hselect⟩ := hfinished.consistent.selected _ _ _ hchosen
  rcases SourceManager.select_cases hselect with hkept | ⟨rev, hpin, hversion, -⟩ | hlisted
  · obtain ⟨e, he, hversion, -⟩ := Lock.kept?_eq_some_iff.1 hkept
    obtain ⟨hmem, hroot⟩ := Lock.mem_of_get? he
    by_cases hsource : e.id.source = q.id.source
    · have heq : e.id = q.id := congrArg₂ ProjectId.mk hroot hsource
      exact .inl (.locked hmem heq hversion)
    · exact .inr ⟨e, he, hsource, hversion⟩
  · obtain ⟨d, hd, hrev⟩ := exists_of_pinnedRevision? hpin
    obtain ⟨rule, himposed, hrule⟩ := hfinished.imposed haccounted hr hd
    exact .inl (.pinned himposed (hrule.symm.trans hrev) hversion)
  · obtain ⟨versions, hversions, hfind⟩ := hlisted
    have hmem := List.mem_of_find?_eq_some hfind
    exact .inl (.listed hversions (Version.mem_sortForUpgrade.1 hmem))

namespace Sample

/-- The solver for a workspace without checkouts. -/
def away : Solver :=
  { solver with workspace := { directory? := fun _ => none, version := fun _ => .absent } }

/-- A version that is not listed. -/
def own : Version := .bare ⟨"cafe"⟩

/-- The problem in which the manifest names a fork of the project that is imported, and the lock has
a version of the original. -/
def forked : SolveProblem where
  tree := home
  manifest := { constraints := ⟨[(alpha, { source := some "f.io/a" })], by simp⟩ }
  lock := { projects := [⟨⟨alpha, none⟩, own, ["."]⟩] }

/-- The requirement on the project, which is fetched from the fork. -/
def onFork : Requirement := { source := some "f.io/a", packages := ["."] }

theorem start_forked :
  away.start forked = .ok { requirements := ⟨[(alpha, onFork)], by simp⟩, queue := [alpha] }
  := by
  have himports : forked.externalImports = ["x.io/a"] := externalImports_problem
  rw [start, himports]
  rfl

theorem solve_forked :
  away.solve forked 1 = some ⟨.ok [⟨⟨alpha, some "f.io/a"⟩, own, ["."]⟩], []⟩
  := by
  have hselect : away.sources.select ⟨alpha, some "f.io/a"⟩ [] forked.lock = .ok own := by cbv
  rw [solve, start_forked]
  dsimp only
  rw [run_of_cons rfl (step_of_absent (r := onFork) rfl rfl rfl hselect), run_of_nil rfl]
  cbv

end Sample

theorem known_or_kept_sample :
  Sample.solver.solve Sample.problem 2 = some ⟨.ok Sample.chosen, []⟩ ∧
    ⟨⟨Sample.beta, none⟩, Sample.new, ["lib"]⟩ ∈ Sample.chosen ∧
    Sample.solver.Known Sample.problem Sample.chosen ⟨⟨Sample.beta, none⟩, Sample.new, ["lib"]⟩
  := by
  have hq : ⟨⟨Sample.beta, none⟩, Sample.new, ["lib"]⟩ ∈ Sample.chosen := by simp [Sample.chosen]
  use Sample.solve_problem, hq
  rcases known_or_kept Sample.solve_problem hq with hknown | ⟨e, he, -⟩
  · apply hknown
  · cases he

/-- A version that is kept from an entry with another source need not be known for the id. -/
theorem not_known_of_kept :
  ¬ ∀ (sv : Solver) (p : SolveProblem) (budget : Nat) (solution : List LockedProject) (log : Log),
    sv.solve p budget = some ⟨.ok solution, log⟩ → ∀ q ∈ solution, sv.Known p solution q
  := by
  intro h
  have hknown := h _ _ _ _ _ Sample.solve_forked _ List.mem_cons_self
  cases hknown with
  | locked he hid =>
    obtain rfl := List.mem_singleton.1 he
    cases hid
  | listed hversions hversion =>
    cases hversions
    simp [Sample.own, Sample.old, Sample.new] at hversion
  | pinned himposed hpin =>
    rcases himposed with hrule | ⟨-, hrule | ⟨_, -, -, _, _, _, hdirectory, -⟩⟩
    · cases hrule
    · cases hrule
      cases hpin
    · cases hdirectory

end Solver
end DepLock
