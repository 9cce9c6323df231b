import DepLock.Proofs.Package.Declarations
import Mathlib.Data.List.Permutation

/-!
# Transitive reachability

A path of the tree's own project is reached from a package if imports of usable packages lead there.
A reach map says of each usable package exactly what it reaches and what is imported on the way from
outside; where faults are passed on, a package that reaches a fault is at fault instead
(`PackageTree.reach_exact`).
-/

namespace DepLock.PackageTree

open Relation

variable {t : PackageTree} {o : ReachOptions} {start path path' : String} {fault : PackageFault}

/-- Whether a tree has a package that counts at a path: it is not ignored, not at fault, and a
command only if commands count. -/
structure Usable (t : PackageTree) (o : ReachOptions) (path : String) (p : Package) : Prop where
  present : t.packages.get? path = some (.ok p)
  kept : isIgnoredBy o.ignored path = false
  counted : p.isMain = true → o.mains = true

/-- Whether a usable package has an import that counts: another path that is not ignored, in its
files, or in its test files if these count. -/
def Uses (t : PackageTree) (o : ReachOptions) (path path' : String) : Prop :=
  ∃ p, t.Usable o path p ∧ (path' ∈ p.imports ∨ (o.tests = true ∧ path' ∈ p.testImports)) ∧
    isIgnoredBy o.ignored path' = false ∧ path' ≠ path

/-- Whether imports of usable packages lead, in one or more steps, from one path to another within
the tree's own project. -/
def Within (t : PackageTree) (o : ReachOptions) : String → String → Prop :=
  TransGen fun path path' => t.Uses o path path' ∧ t.isInternal path' = true

/-- The fault of a package that reaches a path at which the tree has a fault or nothing. -/
inductive Hinders (t : PackageTree) : String → PackageFault → Prop where
  | faulty {path : String} {fault : PackageFault} : t.packages.get? path = some (.error fault) →
    t.Hinders path (.importsFaulty path)
  | missing {path : String} : t.packages.get? path = none → t.Hinders path (.missingInternal path)

/-- Whether a package that is not ignored has a fault of its own. -/
def OwnFault (t : PackageTree) (o : ReachOptions) (path : String) (fault : PackageFault) : Prop :=
  t.packages.get? path = some (.error fault) ∧ isIgnoredBy o.ignored path = false

/-- Whether faults are passed on and a usable package reaches a path for which it has a fault. -/
def PassedFault (t : PackageTree) (o : ReachOptions) (start : String) (fault : PackageFault) :
    Prop :=
  o.propagate = true ∧ (∃ p, t.Usable o start p) ∧
    ∃ path, t.Within o start path ∧ t.Hinders path fault

/-- Whether an entry of a reach map lists the internal paths other than the start that the start
reaches, and the external imports of the start and of what it reaches, sorted and each once. -/
structure Lists (t : PackageTree) (o : ReachOptions) (start : String) (e : ReachEntry) : Prop where
  internal_increasing : e.internal.Pairwise fun path path' => compare path path' = .lt
  mem_internal : ∀ path, path ∈ e.internal ↔ t.Within o start path ∧ path ≠ start
  external_increasing : e.external.Pairwise fun path path' => compare path path' = .lt
  mem_external : ∀ path, path ∈ e.external ↔ t.isInternal path = false ∧
    ∃ path', (path' = start ∨ t.Within o start path') ∧ t.Uses o path' path

/-! ### Paths outside the project -/

/-- In a tree whose packages all belong to its project, a path of the project is reached along any
imports that count exactly if it is reached within the project. -/
theorem within_iff_of_rooted (h : ∀ path, t.packages.contains path = true →
    t.isInternal path = true) :
  t.Within o start path ↔ TransGen (t.Uses o) start path ∧ t.isInternal path = true
  := by
  constructor
  · intro hwithin
    use TransGen.mono (fun _ _ hstep => hstep.1) _ _ hwithin
    cases hwithin with
    | single hstep => apply hstep.2
    | tail _ hstep => apply hstep.2
  · rintro ⟨huses, hinternal⟩
    induction huses with
    | single huses => exact .single ⟨huses, hinternal⟩
    | @tail path path' _ huses ih =>
      obtain ⟨p, hp, -⟩ := id huses
      apply TransGen.tail (ih (h path (SortedMap.contains_of_get? hp.present)))
      use huses

/-! ### Direct imports -/

theorem usable?_eq_some_iff {p : Package} {r : Except PackageFault Package} :
  usable? o path r = some p ↔
    r = .ok p ∧ isIgnoredBy o.ignored path = false ∧ (p.isMain = true → o.mains = true)
  := by
  cases r with
  | error fault => simp [usable?]
  | ok p' =>
    simp only [usable?]
    grind

/-- The direct imports of a tree are those of its usable packages. -/
theorem get?_edges_eq_some_iff {e : ReachEntry} :
  (t.edges o).get? path = some e ↔ ∃ p, t.Usable o path p ∧
    e = ⟨(countedImports o path p).filter t.isInternal,
      (countedImports o path p).filter fun i => !t.isInternal i⟩
  := by
  rw [edges, SortedMap.get?_filterMap, Option.bind_eq_some_iff]
  simp only [Option.map_eq_some_iff, usable?_eq_some_iff, List.partition_eq_filter_filter]
  constructor
  · rintro ⟨r, hr, p, ⟨rfl, hkept, hcounted⟩, rfl⟩
    exact ⟨p, ⟨hr, hkept, hcounted⟩, rfl⟩
  · rintro ⟨p, hp, rfl⟩
    exact ⟨.ok p, hp.present, p, ⟨rfl, hp.kept, hp.counted⟩, rfl⟩

theorem exists_edge_iff :
  (∃ e, (t.edges o).get? path = some e) ↔ ∃ p, t.Usable o path p
  := by
  simp only [get?_edges_eq_some_iff]
  constructor
  · rintro ⟨_, p, hp, -⟩
    exact ⟨p, hp⟩
  · rintro ⟨p, hp⟩
    exact ⟨_, p, hp, rfl⟩

theorem uses_iff :
  t.Uses o path path' ↔ ∃ p, t.Usable o path p ∧ path' ∈ countedImports o path p
  := by
  simp only [Uses, mem_countedImports]

theorem leads_iff :
  Leads (t.edges o) path path' ↔ t.Uses o path path' ∧ t.isInternal path' = true
  := by
  rw [uses_iff]
  constructor
  · rintro ⟨e, he, hmem⟩
    obtain ⟨p, hp, rfl⟩ := get?_edges_eq_some_iff.1 he
    obtain ⟨hmem, hinternal⟩ := List.mem_filter.1 hmem
    exact ⟨⟨p, hp, hmem⟩, hinternal⟩
  · rintro ⟨⟨p, hp, hmem⟩, hinternal⟩
    exact ⟨_, get?_edges_eq_some_iff.2 ⟨p, hp, rfl⟩, List.mem_filter.2 ⟨hmem, hinternal⟩⟩

theorem exists_external_iff :
  (∃ e, (t.edges o).get? path = some e ∧ path' ∈ e.external) ↔
    t.Uses o path path' ∧ t.isInternal path' = false
  := by
  rw [uses_iff]
  constructor
  · rintro ⟨e, he, hmem⟩
    obtain ⟨p, hp, rfl⟩ := get?_edges_eq_some_iff.1 he
    obtain ⟨hmem, hexternal⟩ := List.mem_filter.1 hmem
    exact ⟨⟨p, hp, hmem⟩, by simpa using hexternal⟩
  · rintro ⟨⟨p, hp, hmem⟩, hexternal⟩
    exact ⟨_, get?_edges_eq_some_iff.2 ⟨p, hp, rfl⟩,
      List.mem_filter.2 ⟨hmem, by simpa using hexternal⟩⟩

/-- What a search reaches is its start and what is reached within the project. -/
theorem reaches_iff :
  Reaches (t.edges o) start path ↔ path = start ∨ t.Within o start path
  := by
  have hleads : Leads (t.edges o)
      = fun path path' => t.Uses o path path' ∧ t.isInternal path' = true := by
    funext path path'
    exact propext leads_iff
  rw [Reaches, hleads, reflTransGen_iff_eq_or_transGen]
  rfl

/-! ### Faults -/

theorem passedFault?_eq_some_iff :
  t.passedFault? path = some fault ↔ t.Hinders path fault
  := by
  unfold passedFault?
  split
  next fault' h =>
    constructor
    · rintro ⟨⟩
      exact .faulty h
    · rintro (_ | hnone)
      · rfl
      · rw [h] at hnone
        cases hnone
  next h =>
    constructor
    · rintro ⟨⟩
      exact .missing h
    · rintro (hfaulty | _)
      · rw [h] at hfaulty
        cases hfaulty
      · rfl
  next p h =>
    constructor
    · rintro ⟨⟩
    · rintro (hfaulty | hnone)
      · rw [h] at hfaulty
        cases hfaulty
      · rw [h] at hnone
        cases hnone

theorem Usable.not_hinders {p : Package} (h : t.Usable o path p) :
  ¬ t.Hinders path fault
  := by
  rintro (hfaulty | hnone)
  · rw [h.present] at hfaulty
    cases hfaulty
  · rw [h.present] at hnone
    cases hnone

/-- A search is ended by the paths for which a package that reaches them has a fault, if faults are
passed on. -/
theorem blocking?_eq_some_iff :
  blocking? t (t.edges o) o.propagate path = some fault ↔
    o.propagate = true ∧ t.Hinders path fault
  := by
  cases he : (t.edges o).get? path with
  | some e =>
    rw [blocking?_of_some he]
    obtain ⟨p, hp⟩ := exists_edge_iff.1 ⟨e, he⟩
    simp [hp.not_hinders]
  | none =>
    rw [blocking?_of_none he]
    cases o.propagate with
    | false => simp
    | true => simp [passedFault?_eq_some_iff]

/-- A search from a path that ends with a fault has come to a path that passes it on. -/
theorem exists_blocking_of_run {edges : SortedMap String ReachEntry} {propagate : Bool}
    (h : (searchFrom edges start).run t edges propagate = .error fault) :
  ∃ path, Reaches edges start path ∧ blocking? t edges propagate path = some fault
  := by
  rcases (Search.underway_searchFrom start).run with
    ⟨s, -, -, hrun⟩ | ⟨path, fault', hreaches, hfault, hrun⟩
  · rw [hrun] at h
    cases h
  · rw [hrun] at h
    cases h
    use path, hreaches

/-! ### Searches of a tree -/

/-- A search from a usable package ends without a fault exactly if none is passed on to it. -/
theorem Usable.exists_run_iff {p : Package} (h : t.Usable o start p) :
  (∃ e, (searchFrom (t.edges o) start).run t (t.edges o) o.propagate = .ok e) ↔
    ∀ fault, ¬ t.PassedFault o start fault
  := by
  rw [PackageTree.exists_run_iff]
  constructor
  · rintro hnone fault ⟨hpropagate, -, path, hwithin, hhinders⟩
    have hblocking := hnone path (reaches_iff.2 (.inr hwithin))
    rw [blocking?_eq_some_iff.2 ⟨hpropagate, hhinders⟩] at hblocking
    cases hblocking
  · intro hnone path hreaches
    rw [Option.eq_none_iff_forall_ne_some]
    intro fault hfault
    obtain ⟨hpropagate, hhinders⟩ := blocking?_eq_some_iff.1 hfault
    rcases reaches_iff.1 hreaches with rfl | hwithin
    · apply h.not_hinders hhinders
    · apply hnone fault ⟨hpropagate, ⟨p, h⟩, path, hwithin, hhinders⟩

theorem Usable.passedFault {p : Package} (h : t.Usable o start p)
    (hrun : (searchFrom (t.edges o) start).run t (t.edges o) o.propagate = .error fault) :
  t.PassedFault o start fault
  := by
  obtain ⟨path, hreaches, hfault⟩ := exists_blocking_of_run hrun
  obtain ⟨hpropagate, hhinders⟩ := blocking?_eq_some_iff.1 hfault
  rcases reaches_iff.1 hreaches with rfl | hwithin
  · exact absurd hhinders h.not_hinders
  · exact ⟨hpropagate, ⟨p, h⟩, path, hwithin, hhinders⟩

/-- A search that ends without a fault lists what is reached. -/
theorem lists_of_run {e : ReachEntry}
    (h : (searchFrom (t.edges o) start).run t (t.edges o) o.propagate = .ok e) :
  t.Lists o start e
  := by
  obtain ⟨s, rfl, hinternal, hexternal⟩ := exists_underway_of_run h
  refine ⟨increasing_sortDedup _, ?internal, increasing_sortDedup _, ?external⟩
  case internal =>
    intro path
    rw [mem_sortDedup, hinternal, reaches_iff]
    apply and_congr_left
    intro hne
    rw [or_iff_right hne]
  case external =>
    intro path
    rw [mem_sortDedup, hexternal]
    constructor
    · rintro ⟨path', e, hreaches, hedge⟩
      obtain ⟨huses, hleaves⟩ := exists_external_iff.1 ⟨e, hedge⟩
      exact ⟨hleaves, path', reaches_iff.1 hreaches, huses⟩
    · rintro ⟨hleaves, path', hreached, huses⟩
      obtain ⟨e, hedge⟩ := exists_external_iff.2 ⟨huses, hleaves⟩
      exact ⟨path', e, reaches_iff.2 hreached, hedge⟩

/-! ### Reach maps -/

theorem get?_ownFaults_eq_some_iff :
  (t.ownFaults o).get? path = some fault ↔ t.OwnFault o path fault
  := by
  rw [ownFaults, SortedMap.get?_filterMap, Option.bind_eq_some_iff, OwnFault]
  constructor
  · rintro ⟨r, hr, hfault⟩
    cases r with
    | ok p => cases hfault
    | error fault' =>
      simp only [Option.ite_none_left_eq_some, Option.some.injEq, Bool.not_eq_true] at hfault
      obtain ⟨hkept, rfl⟩ := hfault
      exact ⟨hr, hkept⟩
  · rintro ⟨hr, hkept⟩
    exact ⟨_, hr, by simp [hkept]⟩

/-- A package is at fault for the search from it, or for itself. -/
theorem get?_faults (t : PackageTree) (o : ReachOptions) (start : String) :
  (t.reach o).2.get? start =
    (((t.edges o).get? start).bind fun _ =>
      match (searchFrom (t.edges o) start).run t (t.edges o) o.propagate with
      | .ok _ => none
      | .error fault => some fault).or ((t.ownFaults o).get? start)
  := by
  simp only [reach, SortedMap.get?_overlay, SortedMap.get?_filterMap, SortedMap.get?_mapValues]
  cases (t.edges o).get? start <;> rfl

theorem contains_reach_iff :
  (t.reach o).1.contains start = true ↔
    (∃ p, t.Usable o start p) ∧ ∀ fault, ¬ t.PassedFault o start fault
  := by
  rw [SortedMap.contains_iff]
  constructor
  · rintro ⟨e, he⟩
    obtain ⟨hedge, hrun⟩ := run_of_reach he
    obtain ⟨p, hp⟩ := exists_edge_iff.1 hedge
    exact ⟨⟨p, hp⟩, hp.exists_run_iff.1 ⟨e, hrun⟩⟩
  · rintro ⟨⟨p, hp⟩, hnone⟩
    obtain ⟨e, hrun⟩ := hp.exists_run_iff.2 hnone
    obtain ⟨edge, hedge⟩ := exists_edge_iff.2 ⟨p, hp⟩
    use e
    rw [get?_reach, hedge, Option.bind_some, hrun]
    rfl

/-- A fault of a reach map is the package's own, or passed on to it. -/
theorem fault_of_reach (h : (t.reach o).2.get? path = some fault) :
  t.OwnFault o path fault ∨ t.PassedFault o path fault
  := by
  rw [get?_faults, Option.or_eq_some_iff] at h
  rcases h with h | ⟨-, h⟩
  · right
    obtain ⟨edge, hedge, hfault⟩ := Option.bind_eq_some_iff.1 h
    obtain ⟨p, hp⟩ := exists_edge_iff.1 ⟨edge, hedge⟩
    split at hfault
    next => cases hfault
    next hrun =>
      cases hfault
      apply hp.passedFault hrun
  · left
    apply get?_ownFaults_eq_some_iff.1 h

theorem contains_faults_iff :
  (t.reach o).2.contains path = true ↔
    ∃ fault, t.OwnFault o path fault ∨ t.PassedFault o path fault
  := by
  rw [SortedMap.contains_iff]
  constructor
  · rintro ⟨fault, hfault⟩
    exact ⟨fault, fault_of_reach hfault⟩
  · rintro ⟨fault, hown | hpassed⟩
    · rw [← get?_ownFaults_eq_some_iff] at hown
      rw [get?_faults, hown]
      exact ⟨_, Option.or_some⟩
    · obtain ⟨p, hp⟩ := hpassed.2.1
      obtain ⟨edge, hedge⟩ := exists_edge_iff.2 ⟨p, hp⟩
      rw [get?_faults, hedge, Option.bind_some]
      cases hrun : (searchFrom (t.edges o) path).run t (t.edges o) o.propagate with
      | ok e => exact absurd hpassed (hp.exists_run_iff.1 ⟨e, hrun⟩ fault)
      | error fault' => exact ⟨fault', rfl⟩

/-- A reach map has exactly the usable packages to which no fault is passed on, each with what it
reaches. All others that are usable are at fault for a path that they reach, and so are the packages
with a fault of their own that are not ignored. In a tree whose packages are all under its import
root, what is reached within the project is what imports of any kind lead to there. -/
theorem reach_exact (t : PackageTree) (o : ReachOptions) :
  (∀ start e, (t.reach o).1.get? start = some e → t.Lists o start e) ∧
  (∀ start, (t.reach o).1.contains start = true ↔
    (∃ p, t.Usable o start p) ∧ ∀ fault, ¬ t.PassedFault o start fault) ∧
  (∀ path, (t.reach o).2.contains path = true ↔
    ∃ fault, t.OwnFault o path fault ∨ t.PassedFault o path fault) ∧
  (∀ path fault, (t.reach o).2.get? path = some fault →
    t.OwnFault o path fault ∨ t.PassedFault o path fault) ∧
  (∀ path, ¬ ((t.reach o).1.contains path = true ∧ (t.reach o).2.contains path = true)) ∧
  ((∀ path, t.packages.contains path = true → t.isInternal path = true) →
    ∀ start path, t.Within o start path ↔
      TransGen (t.Uses o) start path ∧ t.isInternal path = true)
  := by
  refine ⟨?lists, fun _ => contains_reach_iff, fun _ => contains_faults_iff,
    fun _ _ => fault_of_reach, ?disjoint, fun hrooted _ _ => within_iff_of_rooted hrooted⟩
  case lists =>
    intro start e he
    obtain ⟨-, hrun⟩ := run_of_reach he
    apply lists_of_run hrun
  case disjoint =>
    rintro path ⟨hreach, hfault⟩
    obtain ⟨e, he⟩ := SortedMap.contains_iff.1 hreach
    rw [not_fault_of_reach he] at hfault
    cases hfault

namespace Sample

/-- Two packages that import each other, one at fault, and one that imports it. -/
def tangled : PackageTree :=
  ⟨"m", ⟨[("m", .ok { name := "a", imports := ["m/b", "fmt"] }),
    ("m/b", .ok { name := "b", imports := ["m", "n"] }),
    ("m/bad", .error (.unreadable "bad" "denied")),
    ("m/user", .ok { name := "user", imports := ["m/bad"] })], by decide +kernel⟩⟩

/-- Options under which faults are passed on. -/
def strict : ReachOptions := { mains := true, tests := false, propagate := true }

end Sample

theorem reach_exact_sample :
  (∀ path, Sample.tangled.packages.contains path = true →
      Sample.tangled.isInternal path = true) ∧
    (Sample.tangled.reach Sample.strict).1.get? "m" = some ⟨["m/b"], ["fmt", "n"]⟩ ∧
    TransGen (Sample.tangled.Uses Sample.strict) "m" "m/b" ∧
    ¬ TransGen (Sample.tangled.Uses Sample.strict) "m" "m/bad" ∧
    (Sample.tangled.reach Sample.strict).2.get? "m/user"
      = some (.importsFaulty "m/bad") ∧
    Sample.tangled.PassedFault Sample.strict "m/user" (.importsFaulty "m/bad")
  := by
  obtain ⟨hlists, -, -, hfaults, -, hwithin⟩ := reach_exact Sample.tangled Sample.strict
  have hrooted : ∀ path, Sample.tangled.packages.contains path = true →
      Sample.tangled.isInternal path = true := by
    have hentries : ∀ e ∈ Sample.tangled.packages.toList,
        Sample.tangled.isInternal e.1 = true := by decide
    intro path hpath
    obtain ⟨r, hr⟩ := SortedMap.contains_iff.1 hpath
    apply hentries _ (SortedMap.get?_eq_some_iff.1 hr)
  have hentry : (Sample.tangled.reach Sample.strict).1.get? "m"
      = some ⟨["m/b"], ["fmt", "n"]⟩ := by cbv
  have hfault : (Sample.tangled.reach Sample.strict).2.get? "m/user"
      = some (.importsFaulty "m/bad") := by cbv
  have hinternal := (hlists _ _ hentry).mem_internal
  refine ⟨hrooted, hentry, ?reached, ?unreached, hfault, ?passed⟩
  case reached =>
    apply ((hwithin hrooted _ _).1 ((hinternal _).1 (by simp)).1).1
  case unreached =>
    intro huses
    have hmem := (hinternal _).2 ⟨(hwithin hrooted _ _).2 ⟨huses, by decide⟩, by decide⟩
    simp at hmem
  case passed =>
    rcases hfaults _ _ hfault with ⟨hown, -⟩ | hpassed
    · cases hown
    · apply hpassed

end DepLock.PackageTree
