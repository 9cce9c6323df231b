import DepLock.Proofs.Package.Reach
import Mathlib.Logic.Relation

/-!
# What a search finds

A search expands every path that its start reaches along internal imports, in whatever order they
are declared. It ends with what these paths import, unless one of them passes on a fault.
-/

namespace DepLock.PackageTree

variable {t : PackageTree} {edges : SortedMap String ReachEntry} {propagate : Bool}
  {start path : String}

/-- Whether the direct imports of a path lead to another path of its tree. -/
def Leads (edges : SortedMap String ReachEntry) (path path' : String) : Prop :=
  ∃ e, edges.get? path = some e ∧ path' ∈ e.internal

/-- Whether internal imports lead from one path to another in any number of steps. -/
def Reaches (edges : SortedMap String ReachEntry) : String → String → Prop :=
  Relation.ReflTransGen (Leads edges)

/-- The fault that ends a search when it comes to a path. -/
def blocking? (t : PackageTree) (edges : SortedMap String ReachEntry) (propagate : Bool)
    (path : String) : Option PackageFault :=
  match edges.get? path with
  | some _ => none
  | none => if propagate then t.passedFault? path else none

theorem blocking?_of_some {e : ReachEntry} (h : edges.get? path = some e) :
  blocking? t edges propagate path = none
  := by
  rw [blocking?, h]

theorem blocking?_of_none (h : edges.get? path = none) :
  blocking? t edges propagate path = if propagate then t.passedFault? path else none
  := by
  rw [blocking?, h]

namespace Search

/-! ### Visits -/

theorem mem_stack_visit {s : Search} {path' : String} :
  path ∈ (s.visit path').stack ↔ path ∈ s.stack ∨ (path = path' ∧ path ∈ s.unseen)
  := by
  unfold visit
  split <;> grind

theorem mem_internal_visit {s : Search} {path' : String} :
  path ∈ (s.visit path').internal ↔ path ∈ s.internal ∨ (path = path' ∧ path ∈ s.unseen)
  := by
  unfold visit
  split <;> grind

theorem mem_unseen_of_visit {s : Search} {path' : String} (h : path ∈ (s.visit path').unseen) :
  path ∈ s.unseen
  := by
  unfold visit at h
  split at h
  · apply List.mem_of_mem_erase h
  · apply h

theorem mem_unseen_visit {s : Search} {path' : String} (h : path ∈ s.unseen) (hne : path ≠ path') :
  path ∈ (s.visit path').unseen
  := by
  unfold visit
  split
  · apply (List.mem_erase_of_ne hne).2 h
  · apply h

/-- Visits put the unseen ones among the paths onto the stack. -/
theorem mem_stack_foldl_visit {s : Search} {paths : List String} :
  path ∈ (paths.foldl visit s).stack ↔ path ∈ s.stack ∨ (path ∈ paths ∧ path ∈ s.unseen)
  := by
  induction paths generalizing s with
  | nil => simp
  | cons path' paths ih =>
    rw [List.foldl_cons, ih, mem_stack_visit, List.mem_cons]
    have := @mem_unseen_of_visit path s path'
    have := @mem_unseen_visit path s path'
    grind

/-- Visits record the unseen ones among the paths. -/
theorem mem_internal_foldl_visit {s : Search} {paths : List String} :
  path ∈ (paths.foldl visit s).internal ↔ path ∈ s.internal ∨ (path ∈ paths ∧ path ∈ s.unseen)
  := by
  induction paths generalizing s with
  | nil => simp
  | cons path' paths ih =>
    rw [List.foldl_cons, ih, mem_internal_visit, List.mem_cons]
    have := @mem_unseen_of_visit path s path'
    have := @mem_unseen_visit path s path'
    grind

theorem mem_unseen_of_foldl_visit {s : Search} {paths : List String}
    (h : path ∈ (paths.foldl visit s).unseen) :
  path ∈ s.unseen
  := by
  induction paths generalizing s with
  | nil => apply h
  | cons path' paths ih => apply mem_unseen_of_visit (ih h)

theorem mem_unseen_foldl_visit {s : Search} {paths : List String} (h : path ∈ s.unseen)
    (hpaths : path ∉ paths) :
  path ∈ (paths.foldl visit s).unseen
  := by
  induction paths generalizing s with
  | nil => apply h
  | cons path' paths ih =>
    obtain ⟨hne, hpaths⟩ := List.ne_and_not_mem_of_not_mem_cons hpaths
    apply ih (mem_unseen_visit h hne) hpaths

/-- The search that expands a path with edges, with the rest of the stack. -/
def expand (s : Search) (stack : List String) (e : ReachEntry) : Search :=
  e.internal.foldl visit { s with stack, external := s.external ++ e.external }

section Expand

variable {s : Search} {stack : List String} {e : ReachEntry}

theorem mem_stack_expand :
  path ∈ (s.expand stack e).stack ↔ path ∈ stack ∨ (path ∈ e.internal ∧ path ∈ s.unseen)
  := mem_stack_foldl_visit

theorem mem_internal_expand :
  path ∈ (s.expand stack e).internal ↔ path ∈ s.internal ∨ (path ∈ e.internal ∧ path ∈ s.unseen)
  := mem_internal_foldl_visit

theorem external_expand :
  (s.expand stack e).external = s.external ++ e.external
  := external_foldl_visit _ _

theorem mem_unseen_of_expand (h : path ∈ (s.expand stack e).unseen) :
  path ∈ s.unseen
  := by
  have hunseen := mem_unseen_of_foldl_visit h
  apply hunseen

theorem mem_unseen_expand (h : path ∈ s.unseen) (hpath : path ∉ e.internal) :
  path ∈ (s.expand stack e).unseen
  := mem_unseen_foldl_visit h hpath

end Expand

/-! ### Searches under way -/

/-- Whether a search from `start` has come to a path. -/
def Seen (s : Search) (start path : String) : Prop := path = start ∨ path ∈ s.internal

/-- What holds of a search from `start` at every step. -/
structure Underway (t : PackageTree) (edges : SortedMap String ReachEntry) (propagate : Bool)
    (start : String) (s : Search) : Prop where
  stack : ∀ path ∈ s.stack, Reaches edges start path
  internal : ∀ path ∈ s.internal, Reaches edges start path ∧ path ≠ start
  external : ∀ path ∈ s.external,
    ∃ path' e, Reaches edges start path' ∧ edges.get? path' = some e ∧ path ∈ e.external
  unseen : ∀ path ∈ s.unseen, path ≠ start
  /-- Every path to which edges lead is seen or yet to be seen. -/
  targets : ∀ path path', Leads edges path path' → s.Seen start path' ∨ path' ∈ s.unseen
  /-- What is seen but not on the stack has been expanded. -/
  expanded : ∀ path, s.Seen start path → path ∉ s.stack →
    blocking? t edges propagate path = none ∧
      ∀ e, edges.get? path = some e →
        (∀ path' ∈ e.internal, s.Seen start path') ∧ ∀ path' ∈ e.external, path' ∈ s.external

theorem underway_searchFrom (start : String) :
  (searchFrom edges start).Underway t edges propagate start
  := by
  refine ⟨?stack, ?internal, ?external, ?unseen, ?targets, ?expanded⟩
  case stack =>
    intro path hpath
    obtain rfl := List.mem_singleton.1 hpath
    exact Relation.ReflTransGen.refl
  case internal =>
    intro path hpath
    cases hpath
  case external =>
    intro path hpath
    cases hpath
  case unseen =>
    intro path hpath
    simpa using (List.mem_filter.1 hpath).2
  case targets =>
    rintro path path' ⟨e, he, hmem⟩
    by_cases hstart : path' = start
    · exact .inl (.inl hstart)
    · right
      simp only [searchFrom, List.mem_filter, List.mem_eraseDups, List.mem_flatMap,
        SortedMap.mem_values]
      exact ⟨⟨e, ⟨path, he⟩, hmem⟩, by simpa using hstart⟩
  case expanded =>
    rintro path (rfl | hpath) hstack
    · simp [searchFrom] at hstack
    · cases hpath

section Step

variable {s : Search} {stack : List String}

/-- A path without edges that passes on no fault is expanded by leaving it. -/
theorem Underway.skip (h : s.Underway t edges propagate start) (hstack : s.stack = path :: stack)
    (hnone : edges.get? path = none) (hfault : blocking? t edges propagate path = none) :
  Underway t edges propagate start { s with stack }
  := by
  refine ⟨?stack, h.internal, h.external, h.unseen, h.targets, ?expanded⟩
  case stack =>
    intro path' hpath'
    apply h.stack path'
    rw [hstack]
    exact List.mem_cons_of_mem _ hpath'
  case expanded =>
    intro path' hseen hnotMem
    by_cases hpath' : path' = path
    · subst hpath'
      use hfault
      intro e he
      rw [hnone] at he
      cases he
    · apply h.expanded path' hseen
      rw [hstack]
      simpa [hpath'] using hnotMem

/-- A path with edges is expanded by visiting its internal imports. -/
theorem Underway.expand (h : s.Underway t edges propagate start) (hstack : s.stack = path :: stack)
    {e : ReachEntry} (he : edges.get? path = some e) :
  (s.expand stack e).Underway t edges propagate start
  := by
  have hreaches : Reaches edges start path := h.stack path (by simp [hstack])
  have hleads : ∀ path' ∈ e.internal, Reaches edges start path' := by
    intro path' hpath'
    exact hreaches.tail ⟨e, he, hpath'⟩
  have hseen : ∀ path', s.Seen start path' → (s.expand stack e).Seen start path' := by
    rintro path' (rfl | hpath')
    · exact .inl rfl
    · exact .inr (mem_internal_expand.2 (.inl hpath'))
  -- An internal import was seen before, or it is unseen and gets visited.
  have hvisited : ∀ path' ∈ e.internal, (s.expand stack e).Seen start path' := by
    intro path' hpath'
    rcases h.targets path path' ⟨e, he, hpath'⟩ with hpath'' | hunseen
    · apply hseen path' hpath''
    · exact .inr (mem_internal_expand.2 (.inr ⟨hpath', hunseen⟩))
  refine ⟨?stack, ?internal, ?external, ?unseen, ?targets, ?expanded⟩
  case stack =>
    intro path' hpath'
    rcases mem_stack_expand.1 hpath' with hpath' | ⟨hpath', -⟩
    · apply h.stack path'
      rw [hstack]
      exact List.mem_cons_of_mem _ hpath'
    · apply hleads path' hpath'
  case internal =>
    intro path' hpath'
    rcases mem_internal_expand.1 hpath' with hpath' | ⟨hpath', hunseen⟩
    · apply h.internal path' hpath'
    · use hleads path' hpath', h.unseen path' hunseen
  case external =>
    intro path' hpath'
    rw [external_expand] at hpath'
    rcases List.mem_append.1 hpath' with hpath' | hpath'
    · apply h.external path' hpath'
    · use path, e
  case unseen =>
    intro path' hpath'
    apply h.unseen path' (mem_unseen_of_expand hpath')
  case targets =>
    intro path' path'' hleads'
    by_cases hpath'' : path'' ∈ e.internal
    · exact .inl (hvisited path'' hpath'')
    · rcases h.targets path' path'' hleads' with hold | hunseen
      · exact .inl (hseen path'' hold)
      · exact .inr (mem_unseen_expand hunseen hpath'')
  case expanded =>
    intro path' hpath' hnotMem
    rw [mem_stack_expand] at hnotMem
    push Not at hnotMem
    rw [external_expand]
    by_cases heq : path' = path
    · subst heq
      use blocking?_of_some he
      intro e' he'
      rw [he] at he'
      cases he'
      use hvisited
      intro path'' hpath''
      exact List.mem_append_right _ hpath''
    · have hold : s.Seen start path' := by
        rcases hpath' with rfl | hpath'
        · exact .inl rfl
        · rcases mem_internal_expand.1 hpath' with hold | ⟨hmem, hunseen⟩
          · exact .inr hold
          · exact absurd hunseen (hnotMem.2 hmem)
      have hnotStack : path' ∉ s.stack := by
        rw [hstack]
        simpa [heq] using hnotMem.1
      obtain ⟨hfault, hexpanded⟩ := h.expanded path' hold hnotStack
      use hfault
      intro e' he'
      obtain ⟨hinternal, hexternal⟩ := hexpanded e' he'
      use fun path'' hpath'' => hseen path'' (hinternal path'' hpath'')
      intro path'' hpath''
      exact List.mem_append_left _ (hexternal path'' hpath'')

end Step

/-! ### Searches at their end -/

/-- A search that is under way ends with nothing left on the stack, or with a fault that a reached
path passes on. -/
theorem Underway.run {s : Search} (h : s.Underway t edges propagate start) :
  (∃ s' : Search, s'.Underway t edges propagate start ∧ s'.stack = [] ∧
      s.run t edges propagate = .ok ⟨sortDedup s'.internal, sortDedup s'.external⟩) ∨
    ∃ path fault, Reaches edges start path ∧ blocking? t edges propagate path = some fault ∧
      s.run t edges propagate = .error fault
  := by
  induction s using Search.run.induct t edges propagate with
  | case1 s hstack =>
    left
    use s, h, hstack, run_of_nil hstack
  | case2 s path stack hstack hnone fault hfault =>
    right
    use path, fault, h.stack path (by simp [hstack])
    rw [blocking?_of_none hnone]
    use hfault, run_of_fault hstack hnone hfault
  | case3 s path stack hstack hnone hfault ih =>
    rw [run_of_none hstack hnone hfault]
    apply ih (h.skip hstack hnone _)
    rw [blocking?_of_none hnone]
    apply hfault
  | case4 s path stack hstack e he s' ih =>
    rw [run_of_some hstack he]
    apply ih (h.expand hstack he)

/-- At the end of a search all reached paths have been seen. -/
theorem Underway.seen_of_reaches {s : Search} (h : s.Underway t edges propagate start)
    (hstack : s.stack = []) (hreaches : Reaches edges start path) :
  s.Seen start path
  := by
  induction hreaches with
  | refl => exact .inl rfl
  | @tail path path' _ hleads ih =>
    obtain ⟨e, he, hpath'⟩ := hleads
    obtain ⟨-, hexpanded⟩ := h.expanded path ih (by simp [hstack])
    apply (hexpanded e he).1 path' hpath'

/-- At the end of a search no reached path has passed on a fault. -/
theorem Underway.blocking?_eq_none {s : Search} (h : s.Underway t edges propagate start)
    (hstack : s.stack = []) (hreaches : Reaches edges start path) :
  blocking? t edges propagate path = none
  := (h.expanded path (h.seen_of_reaches hstack hreaches) (by simp [hstack])).1

/-- At the end of a search its internal paths are those that the start reaches. -/
theorem Underway.mem_internal_iff {s : Search} (h : s.Underway t edges propagate start)
    (hstack : s.stack = []) :
  path ∈ s.internal ↔ Reaches edges start path ∧ path ≠ start
  := by
  constructor
  · apply h.internal path
  · rintro ⟨hreaches, hne⟩
    apply (h.seen_of_reaches hstack hreaches).resolve_left hne

/-- At the end of a search its external paths are those that the reached paths import. -/
theorem Underway.mem_external_iff {s : Search} (h : s.Underway t edges propagate start)
    (hstack : s.stack = []) :
  path ∈ s.external ↔
    ∃ path' e, Reaches edges start path' ∧ edges.get? path' = some e ∧ path ∈ e.external
  := by
  constructor
  · apply h.external path
  · rintro ⟨path', e, hreaches, he, hpath⟩
    obtain ⟨-, hexpanded⟩ :=
      h.expanded path' (h.seen_of_reaches hstack hreaches) (by simp [hstack])
    apply (hexpanded e he).2 path hpath

end Search

/-- A search from a path ends without a fault exactly when no reached path passes one on. -/
theorem exists_run_iff :
  (∃ e, (searchFrom edges start).run t edges propagate = .ok e) ↔
    ∀ path, Reaches edges start path → blocking? t edges propagate path = none
  := by
  rcases (Search.underway_searchFrom start).run with
    ⟨s, hs, hstack, hrun⟩ | ⟨path, fault, hreaches, hfault, hrun⟩
  · rw [hrun]
    constructor
    · intro _ path hreaches
      apply hs.blocking?_eq_none hstack hreaches
    · intro _
      exact ⟨_, rfl⟩
  · rw [hrun]
    constructor
    · rintro ⟨e, he⟩
      cases he
    · intro h
      rw [h path hreaches] at hfault
      cases hfault

/-- A search from a path that ends without a fault finds exactly the paths that it reaches and what
these import from outside. -/
theorem exists_underway_of_run {e : ReachEntry}
    (h : (searchFrom edges start).run t edges propagate = .ok e) :
  ∃ s : Search, e = ⟨sortDedup s.internal, sortDedup s.external⟩ ∧
    (∀ path, path ∈ s.internal ↔ Reaches edges start path ∧ path ≠ start) ∧
    ∀ path, path ∈ s.external ↔
      ∃ path' e, Reaches edges start path' ∧ edges.get? path' = some e ∧ path ∈ e.external
  := by
  rcases (Search.underway_searchFrom start).run with
    ⟨s, hs, hstack, hrun⟩ | ⟨path, fault, hreaches, hfault, hrun⟩
  · rw [hrun] at h
    cases h
    use s, rfl, fun path => hs.mem_internal_iff hstack, fun path => hs.mem_external_iff hstack
  · rw [hrun] at h
    cases h

end DepLock.PackageTree
