import DepLock.Package.Reach
import DepLock.Proofs.Order.SortedList
import DepLock.Proofs.Order.SortedMap

/-!
# What a tree imports from outside

The external imports of a reach map are imports of packages of the tree, and none of them belongs
to the tree's own project or is ignored. The packages of a reach map are not at fault.
-/

namespace DepLock

theorem ReachMap.mem_externalImports {m : ReachMap} {withStandard : Bool} {path : String} :
  path ∈ m.externalImports withStandard ↔
    (∃ start e, m.get? start = some e ∧ path ∈ e.external) ∧
      (withStandard || !ImportPath.isStandard path) = true
  := by
  simp only [ReachMap.externalImports, mem_sortDedup, List.mem_filter, List.mem_flatMap,
    SortedMap.mem_values]
  grind

namespace PackageTree

/-- Whether a package of the tree imports a path, in its files or in its test files. -/
def Imports (t : PackageTree) (path : String) : Prop :=
  ∃ start p, t.packages.get? start = some (.ok p) ∧ path ∈ p.imports ++ p.testImports

theorem mem_of_mem_countedImports {o : ReachOptions} {start path : String} {p : Package}
    (h : path ∈ countedImports o start p) :
  path ∈ p.imports ++ p.testImports
  := by
  obtain ⟨hmem, -⟩ := List.mem_filter.1 h
  rcases List.mem_append.1 hmem with hmem | hmem
  · apply List.mem_append_left _ hmem
  · split at hmem
    next => apply List.mem_append_right _ hmem
    next => cases hmem

theorem eq_of_usable? {o : ReachOptions} {path : String} {p : Package}
    {r : Except PackageFault Package} (h : usable? o path r = some p) :
  r = .ok p
  := by
  unfold usable? at h
  split at h
  next =>
    split at h
    · cases h
    · cases h
      rfl
  next => cases h

/-- The external imports of an edge are imports that count and leave the tree. -/
theorem counted_of_edges {t : PackageTree} {o : ReachOptions} {start path : String}
    {e : ReachEntry} (he : (t.edges o).get? start = some e) (hpath : path ∈ e.external) :
  ∃ p, t.packages.get? start = some (.ok p) ∧ path ∈ countedImports o start p ∧
    t.isInternal path = false
  := by
  rw [edges, SortedMap.get?_filterMap, Option.bind_eq_some_iff] at he
  obtain ⟨r, hr, he⟩ := he
  obtain ⟨p, hp, rfl⟩ := Option.map_eq_some_iff.1 he
  obtain rfl := eq_of_usable? hp
  simp only [List.partition_eq_filter_filter, List.mem_filter] at hpath
  use p, hr, hpath.1
  simpa using hpath.2

/-- The external imports of an edge are imports of a package and leave the tree. -/
theorem external_of_edges {t : PackageTree} {o : ReachOptions} {start path : String}
    {e : ReachEntry} (he : (t.edges o).get? start = some e) (hpath : path ∈ e.external) :
  t.Imports path ∧ t.isInternal path = false
  := by
  obtain ⟨p, hp, hcounted, hexternal⟩ := counted_of_edges he hpath
  refine ⟨⟨start, p, hp, ?_⟩, hexternal⟩
  apply mem_of_mem_countedImports hcounted

@[simp]
theorem Search.external_visit (s : Search) (path : String) :
  (s.visit path).external = s.external
  := by
  unfold visit
  split <;> rfl

@[simp]
theorem Search.external_foldl_visit (s : Search) (paths : List String) :
  (paths.foldl visit s).external = s.external
  := by
  induction paths generalizing s with
  | nil => rfl
  | cons path paths ih => rw [List.foldl_cons, ih, external_visit]

section Run

variable {t : PackageTree} {edges : SortedMap String ReachEntry} {propagate : Bool}

/-- A search with nothing to expand ends with what it found. -/
theorem Search.run_of_nil {s : Search} (h : s.stack = []) :
  s.run t edges propagate = .ok ⟨sortDedup s.internal, sortDedup s.external⟩
  := by
  obtain ⟨unseen, stack, internal, external⟩ := s
  subst h
  rw [run]

/-- A search ends with the fault that a path without edges passes on. -/
theorem Search.run_of_fault {s : Search} {path : String} {stack : List String}
    (h : s.stack = path :: stack) (hnone : edges.get? path = none) {fault : PackageFault}
    (hfault : (if propagate then t.passedFault? path else none) = some fault) :
  s.run t edges propagate = .error fault
  := by
  obtain ⟨unseen, stack, internal, external⟩ := s
  subst h
  rw [run]
  simp only [hnone, hfault]

/-- A search passes over a path that has no edges and passes on no fault. -/
theorem Search.run_of_none {s : Search} {path : String} {stack : List String}
    (h : s.stack = path :: stack) (hnone : edges.get? path = none)
    (hfault : (if propagate then t.passedFault? path else none) = none) :
  s.run t edges propagate = Search.run t edges propagate { s with stack }
  := by
  obtain ⟨unseen, stack, internal, external⟩ := s
  subst h
  rw [run]
  simp only [hnone, hfault]

/-- A search that expands a path visits its internal imports and keeps its external ones. -/
theorem Search.run_of_some {s : Search} {path : String} {stack : List String}
    (h : s.stack = path :: stack) {e : ReachEntry} (he : edges.get? path = some e) :
  s.run t edges propagate
    = Search.run t edges propagate
        (e.internal.foldl visit { s with stack, external := s.external ++ e.external })
  := by
  obtain ⟨unseen, stack, internal, external⟩ := s
  subst h
  rw [run]
  simp only [he]

/-- What holds of the external imports found so far and of those of every edge holds of those that
a search ends with. -/
theorem Search.external_of_run {P : String → Prop}
    (hedges : ∀ start e, edges.get? start = some e → ∀ path ∈ e.external, P path)
    {s : Search} (hs : ∀ path ∈ s.external, P path)
    {e : ReachEntry} (h : s.run t edges propagate = .ok e) :
  ∀ path ∈ e.external, P path
  := by
  induction s using Search.run.induct t edges propagate with
  | case1 s hstack =>
    rw [run_of_nil hstack] at h
    cases h
    intro path hpath
    apply hs path (mem_sortDedup.1 hpath)
  | case2 s start stack hstack hnone fault hfault =>
    rw [run_of_fault hstack hnone (by simpa using hfault)] at h
    cases h
  | case3 s start stack hstack hnone hfault ih =>
    rw [run_of_none hstack hnone (by simpa using hfault)] at h
    apply ih hs h
  | case4 s start stack hstack e' he' s' ih =>
    rw [run_of_some hstack he'] at h
    apply ih _ h
    intro path hpath
    rw [external_foldl_visit] at hpath
    rcases List.mem_append.1 hpath with hpath | hpath
    · apply hs path hpath
    · apply hedges start e' he' path hpath

end Run

/-- A package of a reach map has edges, and the search from it ends without a fault. -/
theorem run_of_reach {t : PackageTree} {o : ReachOptions} {start : String} {e : ReachEntry}
    (he : (t.reach o).1.get? start = some e) :
  (∃ e', (t.edges o).get? start = some e') ∧
    (searchFrom (t.edges o) start).run t (t.edges o) o.propagate = .ok e
  := by
  simp only [reach, SortedMap.get?_filterMap, SortedMap.get?_mapValues,
    Option.bind_eq_some_iff, Option.map_eq_some_iff] at he
  obtain ⟨r, ⟨e', hedge, rfl⟩, hr⟩ := he
  use ⟨e', hedge⟩
  cases hrun : (searchFrom (t.edges o) start).run t (t.edges o) o.propagate with
  | error fault =>
    rw [hrun] at hr
    cases hr
  | ok e' =>
    rw [hrun] at hr
    cases hr
    rfl

/-- A package of a reach map is not at fault. -/
theorem not_fault_of_reach {t : PackageTree} {o : ReachOptions} {start : String} {e : ReachEntry}
    (he : (t.reach o).1.get? start = some e) :
  (t.reach o).2.contains start = false
  := by
  obtain ⟨⟨e', he'⟩, hrun⟩ := run_of_reach he
  rw [edges, SortedMap.get?_filterMap, Option.bind_eq_some_iff] at he'
  obtain ⟨r, hr, hp⟩ := he'
  obtain ⟨p, hp, -⟩ := Option.map_eq_some_iff.1 hp
  obtain rfl := eq_of_usable? hp
  rw [SortedMap.contains_eq_false_iff, reach, SortedMap.get?_overlay, ownFaults]
  simp only [SortedMap.get?_filterMap, SortedMap.get?_mapValues, hr, Option.bind_some,
    Option.or_none]
  cases hget : (t.edges o).get? start with
  | none => rfl
  | some e' => simp [hrun]

/-- The external imports of a reach map are imports of packages and leave the tree. -/
theorem external_of_reach {t : PackageTree} {o : ReachOptions} {start path : String}
    {e : ReachEntry} (he : (t.reach o).1.get? start = some e) (hpath : path ∈ e.external) :
  t.Imports path ∧ t.isInternal path = false
  := by
  obtain ⟨-, hrun⟩ := run_of_reach he
  apply Search.external_of_run (P := fun path => t.Imports path ∧ t.isInternal path = false)
    (fun _ _ he' _ hpath => external_of_edges he' hpath) _ hrun path hpath
  intro path hpath
  cases hpath

/-- The external imports of a reach map are not ignored. -/
theorem not_ignored_of_reach {t : PackageTree} {o : ReachOptions} {start path : String}
    {e : ReachEntry} (he : (t.reach o).1.get? start = some e) (hpath : path ∈ e.external) :
  isIgnoredBy o.ignored path = false
  := by
  obtain ⟨-, hrun⟩ := run_of_reach he
  apply Search.external_of_run (P := fun path => isIgnoredBy o.ignored path = false) _ _ hrun path
    hpath
  · intro start e he path hpath
    obtain ⟨p, -, hcounted, -⟩ := counted_of_edges he hpath
    have hcounts := (List.mem_filter.1 hcounted).2
    simp only [Bool.and_eq_true, Bool.not_eq_true'] at hcounts
    apply hcounts.1
  · intro path hpath
    cases hpath

end PackageTree
end DepLock
