import DepLock.Proofs.Discovery.Coverage

/-!
# Each source is dispatched once

A walk asks for the source of a project both when it classifies a direct import and when it enters a
package, and `Walk.sync` lets only the first of these through. So no project is dispatched twice, and
each is that of a package that the walk has come to, also when the walk fails. A walk that does not
fail has dispatched the projects of all packages that it has come to, the missing ones among them
(`Discovery.dispatched_of_discover`). What comes of a synchronization is not looked at.
-/

namespace DepLock

/-- A project is dispatched only if it is not yet. -/
theorem Walk.nodup_sync {w : Walk} (h : w.synced.Nodup) (root : ProjectRoot) :
  (w.sync root).synced.Nodup
  := by
  rw [Walk.synced_sync]
  split
  next => apply h
  next hnew => exact List.nodup_append.2 ⟨h, List.nodup_singleton root, by grind⟩

namespace Discovery

variable {d : Discovery} {home root : ProjectRoot} {direct paths : List String} {path : String}
  {w w' : Walk}

/-! ### Single steps -/

theorem nodup_of_classify (hw' : d.classify w path = .ok w') (h : w.synced.Nodup) :
  w'.synced.Nodup
  := by
  unfold classify deduce at hw'
  cases hroot : d.sources.deduceRoot path with
  | error cause =>
    rw [hroot] at hw'
    cases hw'
  | ok root =>
    rw [hroot] at hw'
    simp only at hw'
    split at hw'
    next =>
      cases hw'
      apply h
    next =>
      cases hw'
      obtain ⟨-, -, -, -, hsynced⟩ := d.classifyRoot_frame
        ((Walk.sync { w with data := { w.data with direct := w.data.direct.add root } } root).record
          root path) root
      rw [hsynced]
      apply Walk.nodup_sync
      exact h

theorem Entry.nodup {next : Option (List String)} (hentry : d.Entry home w path w' next)
    (h : w.synced.Nodup) :
  w'.synced.Nodup
  := by
  cases hentry with
  | seen => apply h
  | own _ _ _ _ hsynced =>
    rw [hsynced]
    apply h
  | unusable _ _ _ _ _ _ hsynced =>
    rw [hsynced]
    apply Walk.nodup_sync h
  | missing _ _ _ _ _ _ _ hsynced =>
    rw [hsynced]
    apply Walk.nodup_sync h
  | usable _ _ _ _ _ _ _ hsynced =>
    rw [hsynced]
    apply Walk.nodup_sync h

/-! ### Whole walks -/

/-- Whether no project is dispatched twice, and each for a package of it that the walk comes to. -/
structure Dispatched (d : Discovery) (home : ProjectRoot) (direct : List String)
    (synced : List ProjectRoot) : Prop where
  nodup : synced.Nodup
  used : ∀ root ∈ synced, ∃ path, d.Uses home direct root path

/-- A consistent walk that has dispatched no project twice. -/
structure Orderly (d : Discovery) (home : ProjectRoot) (direct : List String) (w : Walk) : Prop
    extends d.Consistent home direct w where
  nodup : w.synced.Nodup

theorem Orderly.toDispatched (h : d.Orderly home direct w) :
  d.Dispatched home direct w.synced
  := ⟨h.nodup, h.dispatched⟩

/-- How an orderly walk goes on: it stays orderly, or it fails and its dispatches were right so
far. -/
def StaysOrderly (d : Discovery) (home : ProjectRoot) (direct : List String) :
    Except WalkFailure Walk → Prop
  | .ok w => d.Orderly home direct w
  | .error f => d.Dispatched home direct f.walk.synced

/-- By induction on the direct imports, which are classified one after the other. -/
theorem Classifying.staysOrderly (h : d.Classifying home direct w) (hnodup : w.synced.Nodup)
    (hpaths : ∀ path ∈ paths, path ∈ direct ∧ home.contains path = false) :
  d.StaysOrderly home direct (d.classifyAll w paths)
  := by
  induction paths generalizing w with
  | nil => exact ⟨h.toConsistent, hnodup⟩
  | cons path paths ih =>
    obtain ⟨⟨hpath, hhome⟩, hrest⟩ := List.forall_mem_cons.1 hpaths
    rw [Discovery.classifyAll]
    cases hclassify : d.classify w path with
    | error f =>
      rw [StaysOrderly, (error_of_classify hclassify).1]
      exact ⟨hnodup, h.dispatched⟩
    | ok v =>
      obtain ⟨hv, -, -⟩ := h.classify hpath hhome hclassify
      apply ih hv (nodup_of_classify hclassify hnodup) hrest

namespace Orderly

/-- Visits that each keep a walk orderly keep it orderly together. -/
theorem visitEach {visit : Walk → String → Option (Except WalkFailure Walk)}
    (hvisit : ∀ w path r, path ∈ paths → d.Orderly home direct w → visit w path = some r →
      d.StaysOrderly home direct r)
    (h : d.Orderly home direct w) {r : Except WalkFailure Walk}
    (hr : Discovery.visitEach visit w paths = some r) :
  d.StaysOrderly home direct r
  := by
  induction paths generalizing w with
  | nil =>
    rw [Discovery.visitEach] at hr
    cases hr
    apply h
  | cons path paths ih =>
    rw [Discovery.visitEach] at hr
    split at hr
    next v hv =>
      have hv : d.Orderly home direct v := hvisit w path (.ok v) List.mem_cons_self h hv
      exact ih (fun w path r hpath => hvisit w path r (List.mem_cons_of_mem _ hpath)) hv hr
    next => exact hvisit w path r List.mem_cons_self h hr

/-- Entering a reached package and visiting what it imports keeps a walk orderly, by induction on how
many packages may be nested. -/
theorem visitAlong {i : Itinerary} {budget : Nat} (h : d.Orderly home direct w)
    (hpath : d.Reached home direct path) {r : Except WalkFailure Walk}
    (hr : d.visitAlong i home budget w path = some r) :
  d.StaysOrderly home direct r
  := by
  induction budget generalizing w path r with
  | zero => cases hr
  | succ budget ih =>
    have henter {v : Walk} {next : Option (List String)}
        (hv : d.enter home w path = .ok (v, next)) :
        d.Orderly home direct v ∧ d.Entry home w path v next := by
      obtain ⟨hentry, hcheckouts⟩ := h.toConsistent.entry hpath hv
      exact ⟨⟨hentry.consistent h.toConsistent hcheckouts hpath, hentry.nodup h.nodup⟩, hentry⟩
    rw [Discovery.visitAlong] at hr
    split at hr
    next f hf =>
      cases hr
      rw [StaysOrderly, (error_of_enter hf).1]
      exact h.toDispatched
    next v hv =>
      cases hr
      apply (henter hv).1
    next v imports hv =>
      obtain ⟨horderly, hentry⟩ := henter hv
      obtain ⟨r', hr', rfl⟩ := Option.map_eq_some_iff.1 hr
      have hvisited : d.StaysOrderly home direct r' := by
        apply horderly.visitEach _ hr'
        intro w' q r hq hw' hvisit
        apply ih hw' (.imported hpath _) hvisit
        exact (hentry.mem_imports_iff q).1 (i.mem_arrange.1 hq)
      cases r' with
      | error f => apply hvisited
      | ok v' => exact ⟨hvisited.toConsistent.paint path .black, hvisited.nodup⟩

end Orderly

/-- However a walk over the direct imports ends, its dispatches are right. -/
theorem dispatched_of_walkAlong {i : Itinerary} {budget : Nat} {log : Log}
    (hhome : ∀ p ∈ direct, home.contains p = false) {r : Except WalkFailure Walk}
    (hr : d.walkAlong i home direct budget { log } = some r) :
  d.Dispatched home direct (Outcome.ofWalk r).synced
  := by
  have hends : d.StaysOrderly home direct r := by
    have hclassify := (Classifying.empty d home direct log).staysOrderly List.nodup_nil
      fun p hp => ⟨hp, hhome p hp⟩
    unfold walkAlong at hr
    split at hr
    next f hf =>
      cases hr
      rwa [hf] at hclassify
    next v hv =>
      rw [hv] at hclassify
      apply Orderly.visitEach _ hclassify hr
      intro w p r hp hw hvisit
      exact hw.visitAlong (.direct hp) hvisit
  cases r with
  | ok w => exact hends.toDispatched
  | error f => exact hends

/-! ### Synchronizations that fail -/

/-- What discovery works with, when synchronizations end otherwise. -/
def syncing (d : Discovery) (sync : ProjectId → Except SourceError Unit) : Discovery :=
  { d with sources := { d.sources with sync } }

variable {sync : ProjectId → Except SourceError Unit}

theorem classifyAll_syncing (w : Walk) (paths : List String) :
  (d.syncing sync).classifyAll w paths = d.classifyAll w paths
  := by
  induction paths generalizing w with
  | nil => rfl
  | cons path paths ih =>
    have hclassify : (d.syncing sync).classify w path = d.classify w path := rfl
    rw [classifyAll, classifyAll, hclassify]
    simp only [ih]

theorem visit_syncing (budget : Nat) :
  (d.syncing sync).visit home budget = d.visit home budget
  := by
  induction budget with
  | zero => rfl
  | succ budget ih =>
    funext w path
    rw [visit, visit, ih]
    rfl

/-- The outcome does not depend on how synchronizations end. -/
theorem discover_syncing (tree : PackageTree) (budget : Nat) :
  (d.syncing sync).discover tree budget = d.discover tree budget
  := by
  simp only [discover, walk, classifyAll_syncing, visit_syncing]

/-! ### Discovery -/

/-- No project is dispatched twice, and each is that of a package outside the project itself that the
walk comes to, whether discovery succeeds or not. When it succeeds, the projects of all such packages
are dispatched, and all dependencies are among them. However synchronizations end, the outcome is the
same. -/
theorem dispatched_of_discover {tree : PackageTree} {budget : Nat} {o : Outcome}
    (h : d.discover tree budget = some o) :
  o.synced.Nodup
  ∧ (∀ root ∈ o.synced, ∃ path, d.Uses tree.projectRoot (directImports tree) root path)
  ∧ (∀ data, o.result = .ok data →
    (∀ root, root ∈ o.synced ↔
      ∃ path, d.Uses tree.projectRoot (directImports tree) root path) ∧
    ∀ root, data.dependencies.contains root = true → root ∈ o.synced)
  ∧ ∀ sync, (d.syncing sync).discover tree budget = some o
  := by
  have hhome : ∀ p ∈ directImports tree, tree.projectRoot.contains p = false :=
    fun p hp => (outside_of_mem_directImports hp).2
  obtain ⟨log, r, hr, -, hsynced⟩ := exists_walk h
  obtain ⟨hnodup, hused⟩ := dispatched_of_walkAlong hhome hr
  rw [← hsynced] at hnodup hused
  refine ⟨hnodup, hused, ?succeeds, fun sync => (discover_syncing tree budget).trans h⟩
  intro data hdata
  obtain ⟨result, synced, log⟩ := o
  cases hdata
  obtain ⟨w, hw, rfl, rfl⟩ := explored_of_discover h
  use fun root => hw.mem_synced_iff
  intro root hroot
  rw [ProjectData.contains_normalize, hw.contains_dependencies_iff] at hroot
  obtain ⟨path, hpath⟩ := hroot
  exact hw.mem_synced_iff.2 ⟨path, hw.toSound.uses hpath⟩

/-- A project that is checked out and one that it imports, first online and then offline. -/
theorem dispatched_of_discover_sample :
  Sample.discovery.discover Solver.Sample.home 2
      = some ⟨.ok Sample.data, [Solver.Sample.alpha, Solver.Sample.beta], Sample.log⟩ ∧
    [Solver.Sample.alpha, Solver.Sample.beta].Nodup ∧
    (∃ path, Sample.discovery.Uses Solver.Sample.home.projectRoot
      (directImports Solver.Sample.home) Solver.Sample.beta path) ∧
    Sample.data.dependencies.contains Solver.Sample.beta = true ∧
    (Sample.discovery.syncing fun id => .error (.offline id.render)).discover Solver.Sample.home 2
      = some ⟨.ok Sample.data, [Solver.Sample.alpha, Solver.Sample.beta], Sample.log⟩
  := by
  obtain ⟨hnodup, -, hsucceeds, hsync⟩ := dispatched_of_discover Sample.discover_home
  obtain ⟨hall, -⟩ := hsucceeds Sample.data rfl
  have hbeta := (hall Solver.Sample.beta).1 (by simp)
  exact ⟨Sample.discover_home, hnodup, hbeta, by decide, hsync _⟩

end Discovery
end DepLock
