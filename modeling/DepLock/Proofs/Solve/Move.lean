import DepLock.Proofs.Solve.State
import Mathlib.Logic.Relation

/-!
# The moves of a solve

Between two choices a solve makes moves of a few kinds: it uses a package that an import names, it
requires what the lock holds, and it lets rules join the requirements on projects that have not been
chosen. All that is done to the requirements, from the first import on, is a sequence of such moves.
-/

namespace DepLock.Solver

open SolveState

variable {sv : Solver} {p : SolveProblem} {s t u : SolveState} {root dep : ProjectRoot}

/-- Whether a package of a listed checkout imports, by itself or through packages of its project, a
path that may lie in another project. -/
def Leads (sv : Solver) (root : ProjectRoot) (start path : String) : Prop :=
  ∃ lister directory tree e, sv.lister = some lister ∧
    sv.workspace.directory? root = some directory ∧ lister directory root.text = .ok tree ∧
    tree.importReach.get? start = some e ∧ path ∈ e.external ∧ ImportPath.isStandard path = false

/-- The imports that a solve may follow: those that it has to solve, and those that leave a listed
checkout. -/
inductive Wanted (sv : Solver) (p : SolveProblem) : String → Prop where
  | direct {path : String} : path ∈ p.externalImports → Wanted sv p path
  | imported {root : ProjectRoot} {start path : String} :
      sv.Leads root start path → Wanted sv p path

/-- Whether the manifest of a checked-out project has a rule for another project. -/
def Declares (sv : Solver) (root dep : ProjectRoot) (rule : ProjectRule) : Prop :=
  ∃ directory manifest lock, sv.workspace.directory? root = some directory ∧
    (sv.analyzer.derive directory root).result = some (manifest, lock) ∧
    manifest.constraints.get? dep = some rule

/-- What a solve may do to the requirements between two choices. -/
inductive Move (sv : Solver) (p : SolveProblem) : SolveState → SolveState → Prop where
  /-- A message is issued. -/
  | tell (s : SolveState) (log : Log) : Move sv p s { s with log }
  /-- The package that an import names is used. -/
  | use (s : SolveState) {path : String} {root : ProjectRoot} :
      sv.Wanted p path → p.root.contains path = false → sv.sources.deduceRoot path = .ok root →
      Move sv p s (s.use root (root.relative path))
  /-- A locked project that is not required is required at its source. -/
  | lock (s : SolveState) {q : LockedProject} :
      q ∈ p.lock.projects → s.requirements.contains q.root = false →
      Move sv p s ((s.require q.root).modify q.root fun r => { r with source := q.id.source })
  /-- A constraint of the manifest joins the requirement on a project. -/
  | constrain (s : SolveState) {root : ProjectRoot} {rule : ProjectRule} :
      p.manifest.constraints.get? root = some rule → s.requirements.contains root = true →
      s.chosen.contains root = false →
      Move sv p s ((s.require root).modify root fun r => r.join p.root.text rule)
  /-- A rule of the manifest of a chosen dependency joins the requirement on a project. -/
  | demand (s : SolveState) {root dep : ProjectRoot} {rule : ProjectRule} :
      s.chosen.contains root = true → sv.Declares root dep rule → dep ≠ p.root → dep ≠ root →
      s.chosen.contains dep = false →
      Move sv p s ((s.require dep).modify dep fun r => r.join root.text rule)

/-- A sequence of moves. -/
abbrev Moves (sv : Solver) (p : SolveProblem) : SolveState → SolveState → Prop :=
  Relation.ReflTransGen (sv.Move p)

theorem Move.grows (h : sv.Move p s t) :
  Grows p.lock s t
  := by
  cases h with
  | tell log =>
    constructor
    · rfl
    · rfl
    · apply List.Subset.refl
    · intro root r hr
      exact ⟨r, hr, .refl r, fun _ => ⟨rfl, rfl⟩⟩
    · intro root hroot
      apply Or.inl hroot
    · intro root rel _ hrel
      apply Or.inl hrel
  | use => apply grows_use
  | lock _ hnone => apply grows_source hnone
  | constrain _ _ hchosen => apply grows_join hchosen
  | demand _ _ _ _ hchosen => apply grows_join hchosen

theorem Moves.grows (h : sv.Moves p s t) :
  Grows p.lock s t
  := by
  induction h with
  | refl => apply Grows.refl
  | tail _ hmove ih => apply ih.trans hmove.grows

/-- Whether a package of a project is named by an import that a solve may follow. -/
def Sourced (sv : Solver) (p : SolveProblem) (root : ProjectRoot) (rel : String) : Prop :=
  ∃ path, sv.Wanted p path ∧ p.root.contains path = false ∧
    sv.sources.deduceRoot path = .ok root ∧ rel = root.relative path

theorem Move.sourced {rel : String} (h : sv.Move p s t) (hrel : rel ∈ t.packages root) :
  rel ∈ s.packages root ∨ sv.Sourced p root rel
  := by
  cases h with
  | tell log => apply Or.inl hrel
  | use hwanted hhome hdep =>
    rw [packages_use] at hrel
    split at hrel
    next heq =>
      subst heq
      rcases mem_insertSorted.1 hrel with rfl | hrel
      · exact .inr ⟨_, hwanted, hhome, hdep, rfl⟩
      · apply Or.inl hrel
    next => apply Or.inl hrel
  | lock _ _ =>
    rw [packages_require_modify] at hrel
    · apply Or.inl hrel
    · intro r
      rfl
  | constrain _ _ _ =>
    rw [packages_require_modify] at hrel
    · apply Or.inl hrel
    · intro r
      rfl
  | demand _ _ _ _ _ =>
    rw [packages_require_modify] at hrel
    · apply Or.inl hrel
    · intro r
      rfl

/-- A package that is required after some moves was required before, or an import names it. -/
theorem Moves.sourced {rel : String} (h : sv.Moves p s t) (hrel : rel ∈ t.packages root) :
  rel ∈ s.packages root ∨ sv.Sourced p root rel
  := by
  induction h with
  | refl => apply Or.inl hrel
  | tail _ hmove ih =>
    rcases hmove.sourced hrel with hrel | hsourced
    · apply ih hrel
    · apply Or.inr hsourced

/-! ### Imports -/

/-- Whether the package that an import names is required. -/
def Covers (sv : Solver) (s : SolveState) (path : String) : Prop :=
  ∃ dep, sv.sources.deduceRoot path = .ok dep ∧ dep.relative path ∈ s.packages dep

theorem Covers.mono {path : String} (h : Extends s t) (hpath : sv.Covers s path) :
  sv.Covers t path
  := by
  obtain ⟨dep, hdep, hrel⟩ := hpath
  exact ⟨dep, hdep, h.packages hrel⟩

theorem covers_use {path : String} (h : sv.sources.deduceRoot path = .ok root) :
  sv.Covers (s.use root (root.relative path)) path
  := ⟨root, h, mem_packages_use s root _⟩

/-- Before anything is chosen, requiring a package is using it. -/
theorem requirePackage_eq_use {rel : String} (h : s.chosen.contains root = false) :
  s.requirePackage root rel = s.use root rel
  := by
  simp [SolveState.use, h]

/-- Requiring the imports of a problem is a sequence of moves after which each is covered. -/
theorem requireImports_spec {paths : List String}
    (hpaths : ∀ path ∈ paths, path ∈ p.externalImports)
    (hchosen : s.chosen = ∅) (h : sv.requireImports p paths s = .ok t) :
  sv.Moves p s t ∧ ∀ path ∈ paths, p.root.contains path = false → sv.Covers t path
  := by
  induction paths generalizing s with
  | nil =>
    rw [requireImports] at h
    cases h
    use .refl
    simp
  | cons path paths ih =>
    obtain ⟨hpath, hrest⟩ := List.forall_mem_cons.1 hpaths
    rw [requireImports] at h
    rw [List.forall_mem_cons]
    split at h
    next hhome =>
      obtain ⟨hmoves, hcovers⟩ := ih hrest hchosen h
      refine ⟨hmoves, ?_, hcovers⟩
      intro hhome'
      rw [hhome] at hhome'
      cases hhome'
    next hhome =>
      split at h
      next => cases h
      next root hroot =>
        rw [requirePackage_eq_use (by simp [hchosen])] at h
        obtain ⟨hmoves, hcovers⟩ := ih hrest (by simp [hchosen]) h
        have hmove : sv.Move p s (s.use root (root.relative path)) :=
          .use s (.direct hpath) (Bool.eq_false_iff.2 hhome) hroot
        refine ⟨.head hmove hmoves, ?_, hcovers⟩
        intro _
        apply Covers.mono hmoves.grows.extension (covers_use hroot)

/-- Requiring the imports of a checkout is a sequence of moves after which each that leaves both
projects is covered. -/
theorem requireFrom_spec {paths : List String} (hpaths : ∀ path ∈ paths, sv.Wanted p path)
    (h : sv.requireFrom p root paths s = .ok t) :
  sv.Moves p s t ∧ ∀ path ∈ paths, p.root.contains path = false → root.contains path = false →
    sv.Covers t path
  := by
  induction paths generalizing s with
  | nil =>
    rw [requireFrom] at h
    cases h
    use .refl
    simp
  | cons path paths ih =>
    obtain ⟨hpath, hrest⟩ := List.forall_mem_cons.1 hpaths
    rw [requireFrom] at h
    rw [List.forall_mem_cons]
    split at h
    next hown =>
      obtain ⟨hmoves, hcovers⟩ := ih hrest h
      refine ⟨hmoves, ?_, hcovers⟩
      intro hhome hroot
      simp [hhome, hroot] at hown
    next hown =>
      rw [Bool.or_eq_true, not_or] at hown
      split at h
      next => cases h
      next dep hdep =>
        obtain ⟨hmoves, hcovers⟩ := ih hrest h
        have hmove : sv.Move p s (s.use dep (dep.relative path)) :=
          .use s hpath (Bool.eq_false_iff.2 hown.1) hdep
        refine ⟨.head hmove hmoves, ?_, hcovers⟩
        intro _ _
        apply Covers.mono hmoves.grows.extension (covers_use hdep)

/-! ### The start -/

/-- Requiring locked projects is a sequence of moves after which each of them is required. -/
theorem requireLocked_spec {qs : List LockedProject} (hqs : ∀ q ∈ qs, q ∈ p.lock.projects)
    (s : SolveState) :
  sv.Moves p s (requireLocked { p.lock with projects := qs } s) ∧
    ∀ q ∈ qs, (requireLocked { p.lock with projects := qs } s).requirements.contains q.root = true
  := by
  induction qs generalizing s with
  | nil =>
    use .refl
    simp
  | cons q qs ih =>
    obtain ⟨hq, hrest⟩ := List.forall_mem_cons.1 hqs
    simp only [requireLocked, List.foldl_cons, List.forall_mem_cons]
    cases hroot : s.requirements.contains q.root with
    | true =>
      obtain ⟨hmoves, hlocked⟩ := ih hrest s
      use hmoves, hmoves.grows.extension.contains hroot
      apply hlocked
    | false =>
      obtain ⟨hmoves, hlocked⟩ := ih hrest
        ((s.require q.root).modify q.root fun r => { r with source := q.id.source })
      refine ⟨.head (.lock s hq hroot) hmoves, ?_, hlocked⟩
      apply hmoves.grows.extension.contains
      rw [contains_require_modify, decide_eq_true rfl, Bool.true_or]

/-- Whether a rule has joined the requirement on a project. -/
def Joined (s : SolveState) (root : ProjectRoot) (requiredBy : String) (rule : ProjectRule) :
    Prop :=
  ∃ r, s.requirements.get? root = some r ∧
    (rule.constraint.isAny = false → ⟨requiredBy, rule.constraint⟩ ∈ r.demands)

theorem Joined.mono {requiredBy : String} {rule : ProjectRule} (h : Extends s t)
    (hjoined : Joined s root requiredBy rule) :
  Joined t root requiredBy rule
  := by
  obtain ⟨r, hr, hdemand⟩ := hjoined
  obtain ⟨r', hr', hwithin⟩ := h.within root r hr
  exact ⟨r', hr', fun hany => hwithin.demands (hdemand hany)⟩

theorem joined_join (s : SolveState) (root : ProjectRoot) (requiredBy : String)
    (rule : ProjectRule) :
  Joined ((s.require root).modify root fun r => r.join requiredBy rule) root requiredBy rule
  := by
  rw [Joined, get?_require_modify, if_pos rfl]
  refine ⟨_, rfl, ?_⟩
  intro hany
  simp [Requirement.join, hany]

/-- The state in which some rules join the requirements that there are. -/
def joinAll (requiredBy : String) (rules : List (ProjectRoot × ProjectRule)) (s : SolveState) :
    SolveState :=
  rules.foldl (fun s e => s.modify e.1 fun r => r.join requiredBy e.2) s

theorem joinConstraints_eq (p : SolveProblem) (s : SolveState) :
  joinConstraints p s = joinAll p.root.text p.manifest.constraints.toList s
  := rfl

/-- Letting constraints of the manifest join is a sequence of moves after which each has joined the
requirement on its project, if there was one. -/
theorem joinAll_spec (rules : List (ProjectRoot × ProjectRule))
    (hrules : ∀ e ∈ rules, p.manifest.constraints.get? e.1 = some e.2) (hchosen : s.chosen = ∅) :
  sv.Moves p s (joinAll p.root.text rules s) ∧
    ∀ e ∈ rules, s.requirements.contains e.1 = true →
      Joined (joinAll p.root.text rules s) e.1 p.root.text e.2
  := by
  induction rules generalizing s with
  | nil =>
    use .refl
    simp
  | cons e rules ih =>
    obtain ⟨hrule, hrest⟩ := List.forall_mem_cons.1 hrules
    rw [joinAll, List.foldl_cons, ← joinAll, List.forall_mem_cons]
    cases hroot : s.requirements.contains e.1 with
    | false =>
      rw [modify_of_not_contains hroot]
      obtain ⟨hmoves, hjoined⟩ := ih hrest hchosen
      refine ⟨hmoves, ?_, hjoined⟩
      intro hcontains
      cases hcontains
    | true =>
      have hmove : sv.Move p s ((s.require e.1).modify e.1 fun r => r.join p.root.text e.2) :=
        .constrain s hrule hroot (by simp [hchosen])
      have hjoin := joined_join s e.1 p.root.text e.2
      rw [require_of_contains hroot] at hmove hjoin
      obtain ⟨hmoves, hjoined⟩ := ih hrest (hmove.grows.chosen.trans hchosen)
      refine ⟨.head hmove hmoves, ?_, ?_⟩
      · intro _
        apply hjoin.mono hmoves.grows.extension
      · intro e' he' hcontains
        apply hjoined e' he' (hmove.grows.extension.contains hcontains)

/-- Whether a project is required before the queue is worked through: it owns an import that is to
be solved, or it is locked. -/
def Initial (sv : Solver) (p : SolveProblem) (root : ProjectRoot) : Prop :=
  (∃ path ∈ p.externalImports, p.root.contains path = false ∧
    sv.sources.deduceRoot path = .ok root) ∨ p.lock.contains root = true

theorem start_eq (h : sv.start p = .ok s) :
  ∃ t, sv.requireImports p p.externalImports {} = .ok t ∧
    s = joinConstraints p (requireLocked p.lock t)
  := by
  rw [start] at h
  cases ht : sv.requireImports p p.externalImports {} with
  | error f =>
    rw [ht] at h
    cases h
  | ok t =>
    rw [ht] at h
    cases h
    exact ⟨t, rfl, rfl⟩

/-- The start is a sequence of moves after which the imports to solve are covered and the
constraints on the projects required so far have joined. -/
theorem start_spec (h : sv.start p = .ok s) :
  sv.Moves p {} s ∧
    (∀ path ∈ p.externalImports, p.root.contains path = false → sv.Covers s path) ∧
    ∀ root, sv.Initial p root → s.requirements.contains root = true ∧
      ∀ rule, p.manifest.constraints.get? root = some rule → Joined s root p.root.text rule
  := by
  obtain ⟨t, ht, rfl⟩ := start_eq h
  obtain ⟨himports, hcovers⟩ := requireImports_spec (fun _ h => h) rfl ht
  obtain ⟨hlock, hlocked⟩ : sv.Moves p t (requireLocked p.lock t) ∧ _ :=
    requireLocked_spec (fun _ h => h) t
  have hchosen : (requireLocked p.lock t).chosen = ∅ :=
    hlock.grows.chosen.trans himports.grows.chosen
  obtain ⟨hjoin, hjoined⟩ : sv.Moves p _ (joinConstraints p (requireLocked p.lock t)) ∧ _ :=
    joinAll_spec p.manifest.constraints.toList (fun e he => SortedMap.get?_eq_some_iff.2 he) hchosen
  use (himports.trans hlock).trans hjoin
  constructor
  · intro path hpath hhome
    apply (hcovers path hpath hhome).mono
    apply hlock.grows.extension.trans hjoin.grows.extension
  · intro root hroot
    have hcontains : (requireLocked p.lock t).requirements.contains root = true := by
      rcases hroot with ⟨path, hpath, hhome, hroot⟩ | hroot
      · obtain ⟨dep, hdep, hrel⟩ := hcovers path hpath hhome
        rw [hroot] at hdep
        cases hdep
        apply hlock.grows.extension.contains (contains_of_mem_packages hrel)
      · obtain ⟨q, hq⟩ := Option.isSome_iff_exists.1 hroot
        have hqroot := List.find?_some hq
        rw [← of_decide_eq_true hqroot]
        apply hlocked q (List.mem_of_find?_eq_some hq)
    use hjoin.grows.extension.contains hcontains
    intro rule hrule
    apply hjoined (root, rule) (SortedMap.get?_eq_some_iff.1 hrule) hcontains

end DepLock.Solver
