import DepLock.Proofs.Discovery.Coverage
import DepLock.Proofs.Discovery.Nesting

/-!
# Walks in other orders

The direct imports of a project and the imports of each package may be gone through in any order: all
walks fail, or all find the same and dispatch the same projects for synchronization. What a walk
finds is settled by what is reached, and that makes no mention of an order. The walk of discovery is
one of them, along the itinerary `Itinerary.listed`.
-/

namespace DepLock.Discovery

variable {d : Discovery} {home : ProjectRoot} {direct : List String} {tree : PackageTree}
  {roots : List ProjectRoot} {budget budget' : Nat}

/-- How two walks over the same imports may end: both fail, or both have found the same. -/
def Agree : Except WalkFailure Walk → Except WalkFailure Walk → Prop
  | .error _, .error _ => True
  | .ok w, .ok w' =>
    w.data.normalize = w'.data.normalize ∧ ∀ root, root ∈ w.synced ↔ root ∈ w'.synced
  | _, _ => False

/-- Walks that end as they may agree. -/
theorem Concludes.agree {r r' : Except WalkFailure Walk} (h : d.Concludes home direct r)
    (h' : d.Concludes home direct r') :
  Agree r r'
  := by
  have hsucceeds : (∃ w, r = .ok w) ↔ ∃ w', r' = .ok w' :=
    h.succeeds_iff.trans h'.succeeds_iff.symm
  cases r with
  | error f =>
    cases r' with
    | error f' => trivial
    | ok w' =>
      obtain ⟨w, hw⟩ := hsucceeds.2 ⟨w', rfl⟩
      cases hw
  | ok w =>
    cases r' with
    | error f' =>
      obtain ⟨w', hw'⟩ := hsucceeds.1 ⟨w, rfl⟩
      cases hw'
    | ok w' =>
      use Explored.normalize_eq h h'
      intro root
      rw [Explored.mem_synced_iff h, Explored.mem_synced_iff h']

/-- Whatever the orders of the direct imports and of the imports of each package are, walks with the
budget of their workspace return, and all fail or all find the same. -/
theorem walkAlong_agree (hroots : ∀ root, d.workspace.directory? root ≠ none → root ∈ roots)
    (hbudget : d.budget tree roots ≤ budget) (hbudget' : d.budget tree roots ≤ budget')
    {paths paths' : List String} (hpaths : paths.Perm (directImports tree))
    (hpaths' : paths'.Perm (directImports tree)) (i i' : Itinerary) (log log' : Log) :
  ∃ r r', d.walkAlong i tree.projectRoot paths budget { log } = some r ∧
    d.walkAlong i' tree.projectRoot paths' budget' { log := log' } = some r' ∧ Agree r r'
  := by
  obtain ⟨r, hr, hconcludes⟩ :=
    walkAlong_concludes i log hroots (fun p => hpaths.mem_iff) hbudget
  obtain ⟨r', hr', hconcludes'⟩ :=
    walkAlong_concludes i' log' hroots (fun p => hpaths'.mem_iff) hbudget'
  exact ⟨r, r', hr, hr', hconcludes.agree hconcludes'⟩

namespace Sample

open Solver.Sample

/-- The tree of a project that imports packages of two others. -/
def twofold : PackageTree :=
  ⟨"me.io/app",
    ⟨[("me.io/app", .ok { name := "app", imports := ["x.io/a", "y.io/b/lib"] })], by simp⟩⟩

end Sample

theorem walkAlong_agree_sample :
  (∀ root, Sample.discovery.workspace.directory? root ≠ none → root ∈ [Solver.Sample.alpha]) ∧
    Sample.discovery.budget Sample.twofold [Solver.Sample.alpha] ≤ 4 ∧
    ["x.io/a", "y.io/b/lib"].Perm (directImports Sample.twofold) ∧
    ["y.io/b/lib", "x.io/a"].Perm (directImports Sample.twofold) ∧
    ∃ r r', Sample.discovery.walkAlong .listed Sample.twofold.projectRoot
          ["x.io/a", "y.io/b/lib"] 4 { log := [] } = some r ∧
      Sample.discovery.walkAlong .reversed Sample.twofold.projectRoot
          ["y.io/b/lib", "x.io/a"] 4 { log := [] } = some r' ∧ Agree r r'
  := by
  have hroots : ∀ root, Sample.discovery.workspace.directory? root ≠ none →
      root ∈ [Solver.Sample.alpha] := fun root => Sample.mem_of_directory
  have hbudget : Sample.discovery.budget Sample.twofold [Solver.Sample.alpha] ≤ 4 := by cbv
  have hdirect : directImports Sample.twofold = ["x.io/a", "y.io/b/lib"] := by cbv
  have hpaths : ["x.io/a", "y.io/b/lib"].Perm (directImports Sample.twofold) := by rw [hdirect]
  have hpaths' : ["y.io/b/lib", "x.io/a"].Perm (directImports Sample.twofold) := by
    rw [hdirect]
    apply List.Perm.swap
  use hroots, hbudget, hpaths, hpaths'
  apply walkAlong_agree hroots hbudget hbudget hpaths hpaths'

end DepLock.Discovery
