import DepLock.Proofs.Package.Reach
import DepLock.Proofs.Solve.Queueing
import DepLock.Proofs.Solve.Solution

/-!
# Every solve ends

The queue of a solve may grow in every step, and settled projects return to it, but each entry has a
cause of its own, and the causes that can arise are `Foreseeable`: an import of the tree that is
solved, or of the listing of a checkout, requires a project for the first time; the latter may
require a package of a settled one, too; a locked project is required for the first time, and so is
one that the manifest of a checkout has a rule for. When the workspace has finitely many checkouts,
these causes fit into a list that is no longer than the budget.
-/

namespace DepLock.Solver

open SolveState

variable {sv : Solver} {p : SolveProblem} {s t : SolveState} {root dep : ProjectRoot}
  {path : String} {roots came : List ProjectRoot} {causes : List Cause}

/-- The causes that can arise in a solve. -/
inductive Foreseeable (sv : Solver) (p : SolveProblem) : Cause → Prop where
  | direct {path : String} {dep : ProjectRoot} :
      path ∈ p.externalImports → sv.sources.deduceRoot path = .ok dep →
      Foreseeable sv p (.first dep)
  | locked {q : LockedProject} : q ∈ p.lock.projects → Foreseeable sv p (.first q.root)
  | imported {root dep : ProjectRoot} {start path : String} :
      sv.Leads root start path → sv.sources.deduceRoot path = .ok dep →
      Foreseeable sv p (.first dep)
  | demanded {root dep : ProjectRoot} {rule : ProjectRule} :
      sv.Declares root dep rule → Foreseeable sv p (.first dep)
  | again {root dep : ProjectRoot} {start path : String} :
      sv.Leads root start path → sv.sources.deduceRoot path = .ok dep →
      Foreseeable sv p (.again dep (dep.relative path))

/-! ### Causes are foreseeable -/

theorem Wanted.foreseeable (h : sv.Wanted p path) (hdep : sv.sources.deduceRoot path = .ok dep) :
  sv.Foreseeable p (.first dep)
  := by
  cases h with
  | direct hpath => apply Foreseeable.direct hpath hdep
  | imported hleads => apply Foreseeable.imported hleads hdep

/-- Whether every project that is required could be foreseen to be. -/
def Foreseen (sv : Solver) (p : SolveProblem) (s : SolveState) : Prop :=
  ∀ root, s.requirements.contains root = true → sv.Foreseeable p (.first root)

theorem Foreseen.require_modify (h : sv.Foreseen p s) (hdep : sv.Foreseeable p (.first dep))
    (f : Requirement → Requirement) :
  sv.Foreseen p ((s.require dep).modify dep f)
  := by
  intro root hroot
  rw [contains_require_modify, Bool.or_eq_true, decide_eq_true_eq] at hroot
  rcases hroot with rfl | hroot
  · apply hdep
  · apply h root hroot

/-- Nothing that a solve does requires a project that could not be foreseen. -/
theorem persists_foreseen (sv : Solver) (p : SolveProblem) :
  sv.Persists p (sv.Foreseen p)
  where
  move := by
    intro s t hmove hs
    cases hmove with
    | tell log => apply hs
    | use hwanted _ hdep =>
      rw [Foreseen, requirements_use]
      apply hs.require_modify (hwanted.foreseeable hdep)
    | lock hq _ => apply hs.require_modify (.locked hq)
    | constrain _ hcontains _ => apply hs.require_modify (hs _ hcontains)
    | demand _ hdeclares _ _ _ => apply hs.require_modify (.demanded hdeclares)
  of_eq := by
    intro s t hrequirements _ hs
    rw [Foreseen, hrequirements]
    apply hs

namespace History

theorem foreseen (h : sv.History p came causes s) :
  sv.Foreseen p s
  := by
  have hpersists := persists_foreseen sv p
  induction h with
  | start hs _ =>
    apply hpersists.moves (start_spec hs).1
    simp [Foreseen]
  | @step s t came queue causes new root _ _ ht _ ih =>
    apply hpersists.step ht
    exact hpersists.of_eq (s := s) rfl (fun _ => id) ih

/-- The invariants of a solve hold in a history. -/
theorem consistent (h : sv.History p came causes s) :
  sv.Consistent p [] s ∧ sv.Complete p s
  := by
  induction h with
  | start hs _ =>
    obtain ⟨hmoves, -⟩ := start_spec hs
    use Consistent.empty.moves hmoves
    apply Complete.empty.moves hmoves
  | @step s t came queue causes new root _ hqueue ht _ ih =>
    obtain ⟨hconsistent, hcomplete⟩ := ih
    have hpop : Extends s { s with queue } := .of_eq rfl rfl
    obtain ⟨-, hkept⟩ := step_spec (hconsistent.pop hqueue) (hcomplete.extend hpop rfl rfl) ht
    apply hkept

/-- The packages that the problem itself imports are required from the start on. -/
theorem covers (h : sv.History p came causes s) (hpath : path ∈ p.externalImports)
    (hhome : p.root.contains path = false) :
  sv.Covers s path
  := by
  induction h with
  | start hs _ =>
    obtain ⟨-, hcovers, -⟩ := start_spec hs
    apply hcovers path hpath hhome
  | step _ _ ht _ ih => apply ih.mono (extends_of_pop ht)

/-- A package that is required only after the start is imported from a checkout. -/
theorem foreseeable_again {rel : String} (h : sv.History p came causes s)
    (hsourced : sv.Sourced p dep rel) (hnone : rel ∉ s.packages dep) :
  sv.Foreseeable p (.again dep rel)
  := by
  obtain ⟨path, hwanted, hhome, hdep, rfl⟩ := hsourced
  cases hwanted with
  | direct hpath =>
    obtain ⟨dep', hdep', hcovered⟩ := h.covers hpath hhome
    rw [hdep] at hdep'
    cases hdep'
    apply absurd hcovered hnone
  | imported hleads => apply Foreseeable.again hleads hdep

theorem foreseeable (h : sv.History p came causes s) :
  ∀ c ∈ causes, sv.Foreseeable p c
  := by
  induction h with
  | @start s causes hs hcauses =>
    intro c hc
    cases (hcauses.mem_iff c).1 hc with
    | first _ hroot => apply (start hs hcauses).foreseen _ hroot
    | again hchosen _ _ =>
      -- nothing is settled at the start
      rw [(start_spec hs).1.grows.chosen] at hchosen
      simp at hchosen
  | @step s t came queue causes new root h hqueue ht hnew ih =>
    have hnext := step h hqueue ht hnew
    rw [List.forall_mem_append]
    use ih
    intro c hc
    cases (hnew.mem_iff c).1 hc with
    | first _ hroot => apply hnext.foreseen _ hroot
    | again _ hnone hrel =>
      apply h.foreseeable_again (hnext.consistent.1.sourced _ _ hrel) hnone

end History

/-! ### The causes fit into the budget -/

/-- The imports of the listing of a checkout that may lie in other projects. -/
def listedImports (sv : Solver) (root : ProjectRoot) : List String :=
  match sv.lister, sv.workspace.directory? root with
  | some lister, some directory => match lister directory root.text with
    | .ok tree => tree.importReach.externalImports false
    | .error _ => []
  | _, _ => []

/-- The rules of the manifest of a checkout. -/
def listedRules (sv : Solver) (root : ProjectRoot) : List (ProjectRoot × ProjectRule) :=
  match sv.workspace.directory? root with
  | none => []
  | some directory => match (sv.analyzer.derive directory root).result with
    | some (manifest, _) => manifest.constraints.toList
    | none => []

/-- The cause that an import may be for its project to be put into the queue. -/
def firstOf (sv : Solver) (path : String) : Option Cause :=
  match sv.sources.deduceRoot path with
  | .ok dep => some (.first dep)
  | .error _ => none

/-- The cause that an import may be for its project to be put into the queue again. -/
def againOf (sv : Solver) (path : String) : Option Cause :=
  match sv.sources.deduceRoot path with
  | .ok dep => some (.again dep (dep.relative path))
  | .error _ => none

/-- The causes that come from one checkout. -/
def causesFrom (sv : Solver) (root : ProjectRoot) : List Cause :=
  (sv.listedImports root).filterMap sv.firstOf ++ (sv.listedImports root).filterMap sv.againOf
    ++ (sv.listedRules root).map fun e => .first e.1

/-- The causes that come from the problem and from some checkouts. -/
def allCauses (sv : Solver) (p : SolveProblem) (roots : List ProjectRoot) : List Cause :=
  p.externalImports.filterMap sv.firstOf ++ p.lock.projects.map (fun q => .first q.root)
    ++ roots.flatMap sv.causesFrom

theorem Leads.mem_listedImports {start : String} (h : sv.Leads root start path) :
  sv.workspace.directory? root ≠ none ∧ path ∈ sv.listedImports root
  := by
  obtain ⟨lister, directory, tree, e, hlister, hdirectory, htree, he, hpath, hstandard⟩ := h
  constructor
  · simp [hdirectory]
  · simp only [listedImports, hlister, hdirectory, htree]
    apply ReachMap.mem_externalImports.2 ⟨⟨start, e, he, hpath⟩, by simp [hstandard]⟩

theorem Declares.mem_listedRules {rule : ProjectRule} (h : sv.Declares root dep rule) :
  sv.workspace.directory? root ≠ none ∧ (dep, rule) ∈ sv.listedRules root
  := by
  obtain ⟨directory, manifest, lock, hdirectory, hderive, hrule⟩ := h
  constructor
  · simp [hdirectory]
  · simp only [listedRules, hdirectory, hderive]
    apply SortedMap.get?_eq_some_iff.1 hrule

theorem firstOf_eq (h : sv.sources.deduceRoot path = .ok dep) :
  sv.firstOf path = some (.first dep)
  := by
  rw [firstOf, h]

theorem againOf_eq (h : sv.sources.deduceRoot path = .ok dep) :
  sv.againOf path = some (.again dep (dep.relative path))
  := by
  rw [againOf, h]

/-- When no other project is checked out, every cause that can arise is listed. -/
theorem Foreseeable.mem_allCauses {c : Cause}
    (hroots : ∀ root, sv.workspace.directory? root ≠ none → root ∈ roots)
    (h : sv.Foreseeable p c) :
  c ∈ sv.allCauses p roots
  := by
  have hfrom {root : ProjectRoot} (hdirectory : sv.workspace.directory? root ≠ none)
      (hc : c ∈ sv.causesFrom root) : c ∈ sv.allCauses p roots := by
    apply List.mem_append_right
    apply List.mem_flatMap.2 ⟨root, hroots root hdirectory, hc⟩
  cases h with
  | direct hpath hdep =>
    apply List.mem_append_left
    apply List.mem_append_left
    apply List.mem_filterMap.2 ⟨_, hpath, firstOf_eq hdep⟩
  | locked hq =>
    apply List.mem_append_left
    apply List.mem_append_right
    apply List.mem_map.2 ⟨_, hq, rfl⟩
  | imported hleads hdep =>
    obtain ⟨hdirectory, hpath⟩ := hleads.mem_listedImports
    apply hfrom hdirectory
    apply List.mem_append_left
    apply List.mem_append_left
    apply List.mem_filterMap.2 ⟨_, hpath, firstOf_eq hdep⟩
  | again hleads hdep =>
    obtain ⟨hdirectory, hpath⟩ := hleads.mem_listedImports
    apply hfrom hdirectory
    apply List.mem_append_left
    apply List.mem_append_right
    apply List.mem_filterMap.2 ⟨_, hpath, againOf_eq hdep⟩
  | demanded hdeclares =>
    obtain ⟨hdirectory, hrule⟩ := hdeclares.mem_listedRules
    apply hfrom hdirectory
    apply List.mem_append_right
    apply List.mem_map.2 ⟨_, hrule, rfl⟩

theorem contribution_eq (sv : Solver) (root : ProjectRoot) :
  sv.contribution root = 2 * (sv.listedImports root).length + (sv.listedRules root).length
  := by
  unfold contribution listedImports listedRules
  cases sv.workspace.directory? root with
  | none => cases sv.lister <;> rfl
  | some directory =>
    dsimp only
    cases (sv.analyzer.derive directory root).result <;> cases sv.lister with
    | none => rfl
    | some lister =>
      dsimp only
      cases lister directory root.text <;> rfl

theorem length_causesFrom_le (sv : Solver) (root : ProjectRoot) :
  (sv.causesFrom root).length ≤ sv.contribution root
  := by
  have hfirst := List.length_filterMap_le sv.firstOf (sv.listedImports root)
  have hagain := List.length_filterMap_le sv.againOf (sv.listedImports root)
  rw [contribution_eq, causesFrom, List.length_append, List.length_append, List.length_map]
  omega

theorem length_allCauses_le (sv : Solver) (p : SolveProblem) (roots : List ProjectRoot) :
  (sv.allCauses p roots).length ≤ sv.budget p roots
  := by
  have hfirst := List.length_filterMap_le sv.firstOf p.externalImports
  have hfrom : (roots.flatMap sv.causesFrom).length
      ≤ (roots.map sv.contribution).foldr (· + ·) 0 := by
    induction roots with
    | nil => simp
    | cons root roots ih =>
      have hroot := length_causesFrom_le sv root
      rw [List.flatMap_cons, List.length_append, List.map_cons, List.foldr_cons]
      omega
  rw [budget, allCauses, List.length_append, List.length_append, List.length_map]
  omega

namespace History

variable (hroots : ∀ root, sv.workspace.directory? root ≠ none → root ∈ roots)
include hroots

/-- All that ever stood in the queue fits into the budget. -/
theorem length_causes_le (h : sv.History p came causes s) :
  causes.length ≤ sv.budget p roots
  := by
  have hsubset : causes ⊆ sv.allCauses p roots :=
    fun c hc => (h.foreseeable c hc).mem_allCauses hroots
  apply (h.nodup.length_le_of_subset hsubset).trans (length_allCauses_le sv p roots)

theorem length_le (h : sv.History p came causes s) :
  came.length + s.queue.length ≤ sv.budget p roots
  := by
  rw [← List.length_append, h.came_append, List.length_map]
  apply h.length_causes_le hroots

/-- With what is left of the budget, the rest of a solve returns. -/
theorem exists_run {budget : Nat} (h : sv.History p came causes s)
    (hbudget : sv.budget p roots ≤ came.length + budget) :
  ∃ r, sv.run p budget s = some r
  := by
  induction budget generalizing came causes s with
  | zero =>
    have hlength := h.length_le hroots
    have hqueue : s.queue = [] := List.eq_nil_of_length_eq_zero (by omega)
    exact ⟨_, run_of_nil hqueue 0⟩
  | succ budget ih =>
    cases hqueue : s.queue with
    | nil => exact ⟨_, run_of_nil hqueue _⟩
    | cons root queue =>
      cases ht : sv.step p root { s with queue } with
      | error f =>
        use .error f
        rw [run]
        simp only [hqueue, ht]
      | ok t =>
        obtain ⟨new, hnext⟩ := h.exists_step hqueue ht
        obtain ⟨r, hr⟩ := ih hnext (by
          rw [List.length_append, List.length_singleton]
          omega)
        use r
        rw [run_of_cons hqueue ht, hr]

end History

/-- With the budget of its workspace, a solve returns. -/
theorem exists_solve (hroots : ∀ root, sv.workspace.directory? root ≠ none → root ∈ roots) :
  ∃ o, ∀ budget, sv.budget p roots ≤ budget → sv.solve p budget = some o
  := by
  cases hs : sv.start p with
  | error f =>
    use ⟨.error f.error, f.log⟩
    intro budget _
    simp only [solve, hs]
  | ok s =>
    obtain ⟨causes, hhistory⟩ := exists_history hs
    obtain ⟨r, hr⟩ := hhistory.exists_run hroots (Nat.le_add_left _ _)
    obtain ⟨o, ho⟩ : ∃ o, sv.solve p (sv.budget p roots) = some o := by
      simp [solve, hs, hr]
    use o
    intro budget hbudget
    rw [← ho]
    simp only [solve, hs, hr, run_mono hbudget hr]

/-- When the workspace has finitely many checkouts, every solve returns, within a number of queue
entries that is known beforehand. A history tells why: every start begins one and every step
continues it, no cause occurs in it twice, each entry of the queue has its cause, and no more
projects come up than the budget has room for. -/
theorem solve_ends (hroots : ∀ root, sv.workspace.directory? root ≠ none → root ∈ roots) :
  (∃ o, ∀ budget, sv.budget p roots ≤ budget → sv.solve p budget = some o) ∧
    (∀ s, sv.start p = .ok s → ∃ causes, sv.History p [] causes s) ∧
    ∀ came causes s, sv.History p came causes s →
      causes.Nodup ∧ came ++ s.queue = causes.map Cause.root ∧
      came.length ≤ sv.budget p roots ∧
      ∀ root queue t, s.queue = root :: queue → sv.step p root { s with queue } = .ok t →
        ∃ new, sv.History p (came ++ [root]) (causes ++ new) t
  := by
  use exists_solve hroots, fun s hs => exists_history hs
  intro came causes s h
  have hlength := h.length_le hroots
  use h.nodup, h.came_append, by omega
  intro root queue t hqueue ht
  apply h.exists_step hqueue ht

namespace Sample

/-- The tree of a project that imports `y.io/b`. -/
def forth : PackageTree :=
  ⟨"x.io/a", ⟨[("x.io/a", .ok { name := "a", imports := ["y.io/b"] }),
    ("x.io/a/util", .ok { name := "util" })], by simp; decide⟩⟩

/-- The tree of a project that imports `x.io/a/util`. -/
def back : PackageTree :=
  ⟨"y.io/b", ⟨[("y.io/b", .ok { name := "b", imports := ["x.io/a/util"] })], by simp⟩⟩

/-- A solver for a workspace in which `x.io/a` and `y.io/b` are checked out and import each
other. -/
def circular : Solver :=
  { solver with
    workspace := { directory? := fun root =>
                     if root = alpha then some "/ws/x.io/a"
                     else if root = beta then some "/ws/y.io/b" else none
                   version := fun root =>
                     if root = alpha ∨ root = beta then .resolved new else .absent }
    lister := some fun _ root => .ok (if root = "x.io/a" then forth else back) }

theorem mem_of_circular (h : circular.workspace.directory? root ≠ none) :
  root ∈ [alpha, beta]
  := by
  by_contra hroot
  simp only [List.mem_cons, List.not_mem_nil, or_false, not_or] at hroot
  apply h
  simp [circular, hroot.1, hroot.2]

end Sample

theorem solve_ends_sample :
  (∀ root, Sample.circular.workspace.directory? root ≠ none → root ∈ [Sample.alpha, Sample.beta]) ∧
    ∃ o, ∀ budget, 8 ≤ budget → Sample.circular.solve Sample.problem budget = some o
  := by
  use fun root => Sample.mem_of_circular
  obtain ⟨⟨o, ho⟩, -⟩ := solve_ends (p := Sample.problem) fun root => Sample.mem_of_circular
  use o
  intro budget hbudget
  apply ho
  have hsize : Sample.circular.budget Sample.problem [Sample.alpha, Sample.beta] = 8 := by cbv
  rw [hsize]
  apply hbudget

end DepLock.Solver
