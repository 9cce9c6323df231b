import DepLock.Proofs.Discovery.Explored

/-!
# How deep a walk goes

The packages that a walk is in are reached and different from each other, since a package that the
walk is in is not entered again. So a walk is in no more packages at once than are reached, and when
only some projects are checked out, these are among the direct imports and what the trees of those
projects import: a walk with a budget beyond their number returns.
-/

namespace DepLock.Discovery

open Relation

variable {d : Discovery} {home : ProjectRoot} {direct stack paths bound : List String}
  {path : String} {w : Walk} {i : Itinerary} {budget : Nat} {log : Log}
  {tree : PackageTree} {roots : List ProjectRoot}

/-! ### Walks that return -/

namespace Underway

/-- Visits that each return do so one after the other. -/
theorem exists_visitEach {visit : Walk → String → Option (Except WalkFailure Walk)}
    (hvisit : ∀ w path, path ∈ paths → d.Underway home direct stack w →
      ∃ r, visit w path = some r ∧ d.Visited home direct stack [path] w r)
    (h : d.Underway home direct stack w) :
  ∃ r, Discovery.visitEach visit w paths = some r
  := by
  induction paths generalizing w with
  | nil => exact ⟨_, rfl⟩
  | cons path paths ih =>
    obtain ⟨r, hr, hvisited⟩ := hvisit w path List.mem_cons_self h
    rw [Discovery.visitEach, hr]
    cases r with
    | error f => exact ⟨_, rfl⟩
    | ok v =>
      apply ih _ hvisited.1
      intro w path' hpath'
      apply hvisit w path' (List.mem_cons_of_mem _ hpath')

/-- A visit returns when its budget is beyond the number of the packages that it could still go
into. -/
theorem exists_visitAlong (hbound : ∀ p, d.Reached home direct p → p ∈ bound)
    (h : d.Underway home direct stack w) (hpath : d.Reached home direct path)
    (hnodup : stack.Nodup)
    (hstack : ∀ p ∈ stack, d.Reached home direct p ∧ TransGen (d.Follows home) p path)
    (hbudget : bound.length < stack.length + budget) :
  ∃ r, d.visitAlong i home budget w path = some r
  := by
  induction budget generalizing w path stack with
  | zero =>
    -- the walk would be in more packages at once than there are
    have hsubset : stack ⊆ bound := fun p hp => hbound p (hstack p hp).1
    have hlength := (List.subperm_of_subset hnodup hsubset).length_le
    omega
  | succ budget ih =>
    rw [Discovery.visitAlong]
    split
    next => exact ⟨_, rfl⟩
    next => exact ⟨_, rfl⟩
    next v imports hv =>
      obtain ⟨hunderway, -, hnew, hfollows⟩ := h.enter_some hpath hv
      have hreturns : ∃ r, Discovery.visitEach (d.visitAlong i home budget) v
          (i.arrange path imports) = some r := by
        apply hunderway.exists_visitEach
        intro w' q hq hw'
        have hfollowed := (hfollows q).1 (i.mem_arrange.1 hq)
        have hreached : d.Reached home direct q := .imported hpath hfollowed
        have hleads : ∀ p ∈ path :: stack,
            d.Reached home direct p ∧ TransGen (d.Follows home) p q := by
          intro p hp
          rcases List.mem_cons.1 hp with rfl | hp
          · exact ⟨hpath, .single hfollowed⟩
          · exact ⟨(hstack p hp).1, (hstack p hp).2.tail hfollowed⟩
        obtain ⟨r, hr⟩ := ih hw' hreached (List.nodup_cons.2 ⟨hnew, hnodup⟩) hleads
          (by rw [List.length_cons]; omega)
        exact ⟨r, hr, hw'.visitAlong hreached (fun p hp => (hleads p hp).2) hr⟩
      obtain ⟨r, hr⟩ := hreturns
      rw [hr]
      exact ⟨_, rfl⟩

end Underway

/-- A walk returns when its budget is beyond the number of the reached packages. -/
theorem exists_walkAlong (i : Itinerary) (log : Log)
    (hbound : ∀ p, d.Reached home direct p → p ∈ bound)
    (hpaths : ∀ p, p ∈ paths ↔ p ∈ direct) (hhome : ∀ p ∈ direct, home.contains p = false)
    (hbudget : bound.length < budget) :
  ∃ r, d.walkAlong i home paths budget { log } = some r
  := by
  have hclassify := (Classifying.empty d home direct log).classifyAll
    fun p hp => ⟨(hpaths p).1 hp, hhome p ((hpaths p).1 hp)⟩
  unfold walkAlong
  split
  next => exact ⟨_, rfl⟩
  next v hv =>
    rw [hv] at hclassify
    apply (Underway.of_classifying hclassify.1).exists_visitEach
    intro w p hp hw
    have hreached : d.Reached home direct p := .direct ((hpaths p).1 hp)
    obtain ⟨r, hr⟩ := hw.exists_visitAlong (i := i) hbound hreached List.nodup_nil (by simp)
      (by simpa using hbudget)
    exact ⟨r, hr, hw.visitAlong hreached (by simp) hr⟩

/-! ### The budget of a workspace -/

/-- What the tree of a checked-out project imports from other projects, without the standard
library. -/
def listedImports (d : Discovery) (root : ProjectRoot) : List String :=
  match d.workspace.directory? root with
  | none => []
  | some directory =>
    match d.lister directory root.text with
    | .ok tree => tree.importReach.externalImports false
    | .error _ => []

/-- What a tree and the trees of some projects import. -/
def horizon (d : Discovery) (tree : PackageTree) (roots : List ProjectRoot) : List String :=
  directImports tree ++ roots.flatMap d.listedImports

theorem budget_eq (d : Discovery) (tree : PackageTree) (roots : List ProjectRoot) :
  d.budget tree roots = (d.horizon tree roots).length + 1
  := by
  have himports : ∀ root, (d.listedImports root).length
      = match d.workspace.directory? root with
        | none => 0
        | some directory => match d.lister directory root.text with
          | .ok tree => (tree.importReach.externalImports false).length
          | .error _ => 0 := by
    intro root
    unfold listedImports
    split
    next => rfl
    next => split <;> rfl
  rw [horizon, List.length_append, List.length_flatMap]
  simp only [himports]
  rfl

/-- What a package imports is among the imports of the tree of its project. -/
theorem Imports.mem_listedImports {start : String} {root : ProjectRoot} (h : d.Imports start path)
    (hroot : d.sources.deduceRoot start = .ok root) :
  d.workspace.directory? root ≠ none ∧ path ∈ d.listedImports root
  := by
  obtain ⟨directory, tree, e, hdirectory, htree, he, hpath, hstandard⟩ := h.listed hroot
  constructor
  · simp [hdirectory]
  · simp only [listedImports, hdirectory, htree]
    apply ReachMap.mem_externalImports.2 ⟨⟨start, e, he, hpath⟩, by simp [hstandard]⟩

/-- When no other project is checked out, all that is reached is imported by the tree or by the
trees of the projects. -/
theorem mem_horizon (hroots : ∀ root, d.workspace.directory? root ≠ none → root ∈ roots)
    (h : d.Reached home (directImports tree) path) :
  path ∈ d.horizon tree roots
  := by
  cases h with
  | direct hpath => apply List.mem_append_left _ hpath
  | imported _ hfollows =>
    obtain ⟨root, hroot⟩ := hfollows.imports.owned
    obtain ⟨hdirectory, hpath⟩ := hfollows.imports.mem_listedImports hroot
    apply List.mem_append_right
    apply List.mem_flatMap.2 ⟨root, hroots root hdirectory, hpath⟩

/-- With the budget of its workspace, a walk over the direct imports returns, in any order and along
any itinerary, and it explores everything or fails for a reason. -/
theorem walkAlong_concludes (i : Itinerary) (log : Log)
    (hroots : ∀ root, d.workspace.directory? root ≠ none → root ∈ roots)
    (hpaths : ∀ p, p ∈ paths ↔ p ∈ directImports tree) (hbudget : d.budget tree roots ≤ budget) :
  ∃ r, d.walkAlong i tree.projectRoot paths budget { log } = some r ∧
    d.Concludes tree.projectRoot (directImports tree) r
  := by
  have hhome : ∀ p ∈ directImports tree, tree.projectRoot.contains p = false :=
    fun p hp => (outside_of_mem_directImports hp).2
  rw [budget_eq] at hbudget
  obtain ⟨r, hr⟩ := exists_walkAlong i log (fun p hp => mem_horizon hroots hp) hpaths hhome hbudget
  exact ⟨r, hr, concludes_of_walkAlong hpaths hhome hr⟩

end DepLock.Discovery
