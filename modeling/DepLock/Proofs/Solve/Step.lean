import DepLock.Proofs.Solve.Move

/-!
# What happens when a project comes up

A version is chosen for a project that had none and the manifest of its checkout is followed: after
that every rule of it on another project is `Held`. Then the imports of the packages used from the
checkout are followed: after that each package that was gone through is `Expanded`, which means that
the packages it imports from other projects are required. A step does nothing else (`step_cases`),
and a run that ends is one step after the other (`Runs`).
-/

namespace DepLock.Solver

open SolveState

variable {sv : Solver} {p : SolveProblem} {s t u : SolveState} {root dep : ProjectRoot}

/-! ### Rules of dependencies -/

/-- Whether a rule has joined the requirement on a project, or the project is chosen at a version
that an override decided or that the rule admits. -/
def Held (p : SolveProblem) (s : SolveState) (dep : ProjectRoot) (requiredBy : String)
    (rule : ProjectRule) : Prop :=
  Joined s dep requiredBy rule ∨
    ∃ id v, s.chosen.get? dep = some (id, v) ∧
      (p.manifest.overrides.contains dep = true ∨ rule.constraint.admits v = true)

theorem Held.mono {requiredBy : String} {rule : ProjectRule} (h : Extends s t)
    (hheld : Held p s dep requiredBy rule) :
  Held p t dep requiredBy rule
  := by
  rcases hheld with hjoined | ⟨id, v, hv, hadmits⟩
  · apply Or.inl (hjoined.mono h)
  · apply Or.inr ⟨id, v, h.chosen dep _ hv, hadmits⟩

/-- Following the rules of the manifest of a chosen project is a sequence of moves after which each
rule on another project is held. -/
theorem joinRules_spec {rules : List (ProjectRoot × ProjectRule)}
    (hchosen : s.chosen.contains root = true)
    (hrules : ∀ e ∈ rules, sv.Declares root e.1 e.2) (h : joinRules p root rules s = .ok t) :
  sv.Moves p s t ∧ ∀ e ∈ rules, e.1 ≠ p.root → e.1 ≠ root → Held p t e.1 root.text e.2
  := by
  induction rules generalizing s with
  | nil =>
    rw [joinRules] at h
    cases h
    use .refl
    simp
  | cons e rules ih =>
    obtain ⟨dep, rule⟩ := e
    obtain ⟨hrule, hrest⟩ := List.forall_mem_cons.1 hrules
    rw [joinRules] at h
    rw [List.forall_mem_cons]
    split at h
    next hown =>
      obtain ⟨hmoves, hheld⟩ := ih hchosen hrest h
      refine ⟨hmoves, ?_, hheld⟩
      intro hhome hroot
      apply absurd hown (not_or.2 ⟨hhome, hroot⟩)
    next hown =>
      rw [not_or] at hown
      split at h
      next id v hv =>
        split at h
        next hadmits =>
          obtain ⟨hmoves, hheld⟩ := ih hchosen hrest h
          refine ⟨hmoves, ?_, hheld⟩
          intro _ _
          rw [Bool.or_eq_true] at hadmits
          apply Held.mono hmoves.grows.extension
          apply Or.inr ⟨id, v, hv, hadmits⟩
        next => cases h
      next hnone =>
        obtain ⟨hmoves, hheld⟩ := ih (by simp [hchosen]) hrest h
        have hmove : sv.Move p s ((s.require dep).modify dep fun r => r.join root.text rule) :=
          .demand s hchosen hrule hown.1 hown.2 (SortedMap.contains_eq_false_iff.2 hnone)
        refine ⟨.head hmove hmoves, ?_, hheld⟩
        intro _ _
        apply Or.inl ((joined_join s dep root.text rule).mono hmoves.grows.extension)

/-- Following the manifest of the checkout of a chosen project is a sequence of moves after which its
rules on other projects are held. -/
theorem followManifest_spec {directory : String} (hchosen : s.chosen.contains root = true)
    (hdirectory : sv.workspace.directory? root = some directory)
    (h : sv.followManifest p root directory s = .ok t) :
  sv.Moves p s t ∧ ∀ dep rule, sv.Declares root dep rule → dep ≠ p.root → dep ≠ root →
    Held p t dep root.text rule
  := by
  rw [followManifest] at h
  have htell : sv.Move p s { s with log := s.log ++ (sv.analyzer.derive directory root).log } :=
    .tell s _
  split at h
  next hnone =>
    cases h
    use .single htell
    rintro dep rule ⟨directory', manifest, lock, hdirectory', hderive, -⟩
    rw [hdirectory] at hdirectory'
    cases hdirectory'
    rw [hnone] at hderive
    cases hderive
  next manifest lock hsome =>
    have hrules : ∀ e ∈ manifest.constraints.toList, sv.Declares root e.1 e.2 := by
      intro e he
      exact ⟨directory, manifest, lock, hdirectory, hsome, SortedMap.get?_eq_some_iff.2 he⟩
    obtain ⟨hmoves, hheld⟩ := joinRules_spec (by simp [hchosen]) hrules h
    use .head htell hmoves
    rintro dep rule ⟨directory', manifest', lock', hdirectory', hderive, hrule⟩
    rw [hdirectory] at hdirectory'
    cases hdirectory'
    rw [hsome] at hderive
    cases hderive
    apply hheld (dep, rule) (SortedMap.get?_eq_some_iff.1 hrule)

/-- Settling a project chooses the version that is selected under the demands on it, and follows
the manifest of its checkout. -/
theorem settle_spec {r : Requirement} (h : sv.settle p root r s = .ok t) :
  ∃ v, sv.sources.select (effective p root r).1 (effective p root r).2 p.lock = .ok v ∧
    sv.Moves p { s with chosen := s.chosen.insert root ((effective p root r).1, v) } t ∧
    ∀ dep rule, sv.Declares root dep rule → dep ≠ p.root → dep ≠ root →
      Held p t dep root.text rule
  := by
  simp only [settle] at h
  split at h
  next => cases h
  next v hv =>
    use v, hv
    split at h
    next directory hdirectory =>
      apply followManifest_spec (by simp [SortedMap.contains_insert]) hdirectory h
    next hnone =>
      cases h
      use .refl
      rintro dep rule ⟨directory, manifest, lock, hdirectory, -⟩
      rw [hnone] at hdirectory
      cases hdirectory

/-! ### Imports of checkouts -/

/-- The paths to follow and those that are followed, after one more package came up. -/
def comeUp (root : ProjectRoot) (acc : List String × SortedSet String) (rel : String) :
    List String × SortedSet String :=
  if acc.2.contains (root.absolute rel) then acc
  else (acc.1 ++ [root.absolute rel], acc.2.add (root.absolute rel))

theorem mem_foldl_comeUp (root : ProjectRoot) (rels : List String)
    (acc : List String × SortedSet String) (path : String) :
  (path ∈ (rels.foldl (comeUp root) acc).1 ↔
    path ∈ acc.1 ∨ (path ∈ rels.map root.absolute ∧ acc.2.contains path = false)) ∧
  ((rels.foldl (comeUp root) acc).2.contains path = true ↔
    path ∈ rels.map root.absolute ∨ acc.2.contains path = true)
  := by
  induction rels generalizing acc with
  | nil => simp
  | cons rel rels ih =>
    rw [List.foldl_cons, (ih _).1, (ih _).2, comeUp]
    split
    next hrel => grind
    next hrel =>
      simp only [SortedSet.contains_add]
      grind

/-- The packages that are followed anew are those that were not followed, and with them all used
ones are followed. -/
theorem mem_newlyUsed (root : ProjectRoot) (rels : List String) (followed : SortedSet String)
    (path : String) :
  (path ∈ (newlyUsed root rels followed).1 ↔
    path ∈ rels.map root.absolute ∧ followed.contains path = false) ∧
  ((newlyUsed root rels followed).2.contains path = true ↔
    path ∈ rels.map root.absolute ∨ followed.contains path = true)
  := by
  have heq : newlyUsed root rels followed = rels.foldl (comeUp root) ([], followed) := rfl
  rw [heq, (mem_foldl_comeUp root rels ([], followed) path).1,
    (mem_foldl_comeUp root rels ([], followed) path).2]
  simp

theorem mem_importsOf {reach : ReachMap} {paths : List String} {path : String} :
  path ∈ importsOf reach paths ↔
    ∃ start ∈ paths, ∃ e, reach.get? start = some e ∧ path ∈ e.external ∧
      ImportPath.isStandard path = false
  := by
  rw [importsOf, mem_sortDedup, List.mem_flatMap]
  apply exists_congr
  intro start
  apply and_congr_right
  intro _
  cases reach.get? start with
  | none => simp
  | some e => simp [List.mem_filter]

/-- The imports to follow from some packages of a listed checkout are the paths that these lead
to. -/
theorem mem_importsOf_listed {lister : PackageLister} {directory : String}
    (hlister : sv.lister = some lister) (hdirectory : sv.workspace.directory? root = some directory)
    {starts : List String} {path : String} :
  path ∈ importsOf (match lister directory root.text with
    | .ok tree => tree.importReach
    | .error _ => ∅) starts ↔ ∃ start ∈ starts, sv.Leads root start path
  := by
  rw [mem_importsOf]
  apply exists_congr
  intro start
  apply and_congr_right
  intro _
  constructor
  · rintro ⟨e, he, hexternal, hstandard⟩
    split at he
    next tree htree =>
      exact ⟨lister, directory, tree, e, hlister, hdirectory, htree, he, hexternal, hstandard⟩
    next => simp at he
  · rintro ⟨lister', directory', tree, e, hlister', hdirectory', htree, he, hleaves⟩
    rw [hlister] at hlister'
    cases hlister'
    rw [hdirectory] at hdirectory'
    cases hdirectory'
    rw [htree]
    exact ⟨e, he, hleaves⟩

/-- Whether the imports of a package that leave its project and the project that is solved are
covered. -/
def Expanded (sv : Solver) (p : SolveProblem) (s : SolveState) (root : ProjectRoot)
    (start : String) : Prop :=
  ∀ path, sv.Leads root start path → p.root.contains path = false → root.contains path = false →
    sv.Covers s path

theorem Expanded.mono {start : String} (h : Extends s t)
    (hexpanded : sv.Expanded p s root start) :
  sv.Expanded p t root start
  := fun path hleads hhome hroot => (hexpanded path hleads hhome hroot).mono h

/-- Following the imports of a checkout marks the packages used from it as followed and then is a
sequence of moves after which those that were not followed before are expanded. -/
theorem followImports_spec {lister : PackageLister} {directory : String}
    (hlister : sv.lister = some lister) (hdirectory : sv.workspace.directory? root = some directory)
    (h : sv.followImports p lister root directory s = .ok t) :
  ∃ followed : SortedSet String,
    (∀ path, followed.contains path = true ↔
      path ∈ (s.usedPackages p.lock root).map root.absolute ∨ s.followed.contains path = true) ∧
    sv.Moves p { s with followed } t ∧
    ∀ start, followed.contains start = true → s.followed.contains start = false →
      sv.Expanded p t root start
  := by
  have hnewly := mem_newlyUsed root (s.usedPackages p.lock root) s.followed
  simp only [followImports] at h
  obtain ⟨hmoves, hcovers⟩ := requireFrom_spec (fun path hpath => by
    obtain ⟨start, -, hleads⟩ := (mem_importsOf_listed hlister hdirectory).1 hpath
    exact .imported hleads) h
  use (newlyUsed root (s.usedPackages p.lock root) s.followed).2, fun path => (hnewly path).2,
    hmoves
  intro start hfollowed hnew path hleads hhome hroot
  have hstart := (hnewly start).2.1 hfollowed
  rw [hnew] at hstart
  apply hcovers path _ hhome hroot
  apply (mem_importsOf_listed hlister hdirectory).2
  exact ⟨start, (hnewly start).1.2 ⟨by simpa using hstart, hnew⟩, hleads⟩

/-! ### Steps and runs -/

/-- The work on the checkout of a project, if it has one that can be listed. -/
def follow (sv : Solver) (p : SolveProblem) (root : ProjectRoot) (s : SolveState) :
    Except SolveFailure SolveState :=
  match sv.lister, sv.workspace.directory? root with
  | some lister, some directory => sv.followImports p lister root directory s
  | _, _ => .ok s

/-- When a project comes up that is required, its checkout is followed, after a version is chosen
for it if it had none. -/
theorem step_cases (h : sv.step p root s = .ok t) :
  (s.requirements.get? root = none ∧ t = s) ∨
    ∃ r u, s.requirements.get? root = some r ∧ sv.follow p root u = .ok t ∧
      (s.chosen.contains root = true ∧ u = s ∨
        s.chosen.contains root = false ∧ sv.settle p root r s = .ok u)
  := by
  rw [step] at h
  split at h
  next hnone =>
    cases h
    exact .inl ⟨hnone, rfl⟩
  next r hr =>
    right
    cases hchosen : s.chosen.contains root with
    | true =>
      rw [hchosen] at h
      exact ⟨r, s, hr, h, .inl ⟨rfl, rfl⟩⟩
    | false =>
      rw [hchosen] at h
      cases hu : sv.settle p root r s with
      | error f =>
        rw [hu] at h
        cases h
      | ok u =>
        rw [hu] at h
        exact ⟨r, u, hr, h, .inr ⟨rfl, hu⟩⟩

/-- Whether the work through the queue leads from one state to another in which nothing waits. -/
inductive Runs (sv : Solver) (p : SolveProblem) : SolveState → SolveState → Prop
  | done {s : SolveState} : s.queue = [] → Runs sv p s s
  | step {s t u : SolveState} {root : ProjectRoot} {queue : List ProjectRoot} :
      s.queue = root :: queue → sv.step p root { s with queue } = .ok u → Runs sv p u t →
      Runs sv p s t

theorem runs_of_run {budget : Nat} (h : sv.run p budget s = some (.ok t)) :
  sv.Runs p s t
  := by
  induction budget generalizing s with
  | zero =>
    rw [run] at h
    split at h
    next hqueue =>
      cases h
      exact .done hqueue
    next => cases h
  | succ budget ih =>
    rw [run] at h
    split at h
    next hqueue =>
      cases h
      exact .done hqueue
    next root queue hqueue =>
      simp only at h
      split at h
      next => cases h
      next u hu => exact .step hqueue hu (ih h)

end DepLock.Solver
