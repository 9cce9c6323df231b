import DepLock.Proofs.Package.Search
import Mathlib.Data.Option.Defs

/-!
# The order of declaration

Trees are alike when their packages declare the same imports, in whatever order and however often.
Searches of such trees take different ways through the same packages, so what each package reaches
is the same.
-/

namespace DepLock

/-- Ignore lists with the same patterns cover the same paths. -/
theorem isIgnoredBy_congr {ignored ignored' : List String}
    (h : ∀ pattern, pattern ∈ ignored ↔ pattern ∈ ignored') (path : String) :
  isIgnoredBy ignored path = isIgnoredBy ignored' path
  := by
  rw [Bool.eq_iff_iff]
  simp only [isIgnoredBy, List.any_eq_true, h]

/-- Packages of one name with the same imports. -/
structure Package.Alike (p p' : Package) : Prop where
  name : p.name = p'.name
  imports : ∀ path, path ∈ p.imports ↔ path ∈ p'.imports
  testImports : ∀ path, path ∈ p.testImports ↔ path ∈ p'.testImports

theorem Package.Alike.isMain {p p' : Package} (h : p.Alike p') :
  p.isMain = p'.isMain
  := by
  rw [Package.isMain, Package.isMain, h.name]

/-- Entries of a reach map with the same paths. -/
structure ReachEntry.Alike (e e' : ReachEntry) : Prop where
  internal : ∀ path, path ∈ e.internal ↔ path ∈ e'.internal
  external : ∀ path, path ∈ e.external ↔ path ∈ e'.external

/-- Options for which the same packages and imports count. -/
structure ReachOptions.Alike (o o' : ReachOptions) : Prop where
  mains : o.mains = o'.mains
  tests : o.tests = o'.tests
  propagate : o.propagate = o'.propagate
  ignored : ∀ pattern, pattern ∈ o.ignored ↔ pattern ∈ o'.ignored

namespace PackageTree

/-- What a tree may hold at a path: one fault, or packages that are alike. -/
inductive EntryAlike : Except PackageFault Package → Except PackageFault Package → Prop where
  | fault (fault : PackageFault) : EntryAlike (.error fault) (.error fault)
  | package {p p' : Package} (h : p.Alike p') : EntryAlike (.ok p) (.ok p')

/-- Trees of one root with alike packages. -/
structure Alike (t t' : PackageTree) : Prop where
  root : t.root = t'.root
  packages : ∀ path, Option.Rel EntryAlike (t.packages.get? path) (t'.packages.get? path)

variable {t t' : PackageTree} {o o' : ReachOptions} {path : String}

theorem Alike.isInternal (h : t.Alike t') :
  t.isInternal = t'.isInternal
  := by
  funext path
  rw [PackageTree.isInternal, PackageTree.isInternal, projectRoot, projectRoot, h.root]

/-- Alike trees pass on the same faults. -/
theorem Alike.passedFault? (h : t.Alike t') (path : String) :
  t.passedFault? path = t'.passedFault? path
  := by
  have hrel := h.packages path
  unfold PackageTree.passedFault?
  generalize t.packages.get? path = r, t'.packages.get? path = r' at hrel
  cases hrel with
  | none => rfl
  | some hentry =>
    cases hentry with
    | fault fault => rfl
    | package hp => rfl

/-! ### Direct imports -/

theorem mem_countedImports {p : Package} {path' : String} :
  path' ∈ countedImports o path p ↔
    (path' ∈ p.imports ∨ (o.tests = true ∧ path' ∈ p.testImports)) ∧
      isIgnoredBy o.ignored path' = false ∧ path' ≠ path
  := by
  unfold countedImports
  cases o.tests <;> simp [or_and_right]

theorem mem_countedImports_congr (ho : o.Alike o') {p p' : Package} (h : p.Alike p')
    (path' : String) :
  path' ∈ countedImports o path p ↔ path' ∈ countedImports o' path p'
  := by
  rw [mem_countedImports, mem_countedImports, isIgnoredBy_congr ho.ignored, ho.tests, h.imports,
    h.testImports]

/-- Direct imports of the same paths, apart from order and repeats. -/
def EdgesAlike (edges edges' : SortedMap String ReachEntry) : Prop :=
  ∀ path, Option.Rel ReachEntry.Alike (edges.get? path) (edges'.get? path)

/-- Alike trees have alike direct imports. -/
theorem Alike.edges (h : t.Alike t') (ho : o.Alike o') :
  EdgesAlike (t.edges o) (t'.edges o')
  := by
  intro path
  have hrel := h.packages path
  rw [PackageTree.edges, PackageTree.edges, SortedMap.get?_filterMap, SortedMap.get?_filterMap]
  generalize t.packages.get? path = r, t'.packages.get? path = r' at hrel
  cases hrel with
  | none => apply Option.Rel.none
  | some hentry =>
    cases hentry with
    | fault fault => apply Option.Rel.none
    | @package p p' hp =>
      rw [Option.bind_some, Option.bind_some, usable?, usable?, isIgnoredBy_congr ho.ignored,
        hp.isMain, ho.mains]
      split
      · apply Option.Rel.none
      · apply Option.Rel.some
        simp only [List.partition_eq_filter_filter]
        constructor
        · intro path'
          rw [List.mem_filter, List.mem_filter, mem_countedImports_congr ho hp, h.isInternal]
        · intro path'
          rw [List.mem_filter, List.mem_filter, mem_countedImports_congr ho hp, h.isInternal]

section Edges

variable {edges edges' : SortedMap String ReachEntry} {propagate : Bool} {start : String}

theorem EdgesAlike.exists_get? (h : EdgesAlike edges edges') {e : ReachEntry}
    (he : edges.get? path = some e) :
  ∃ e', edges'.get? path = some e' ∧ e.Alike e'
  := by
  have hrel := h path
  rw [he] at hrel
  generalize edges'.get? path = r' at hrel
  cases hrel with
  | some halike => exact ⟨_, rfl, halike⟩

theorem EdgesAlike.symm (h : EdgesAlike edges edges') :
  EdgesAlike edges' edges
  := by
  intro path
  have hrel := h path
  generalize edges.get? path = r, edges'.get? path = r' at hrel
  cases hrel with
  | none => apply Option.Rel.none
  | some halike =>
    apply Option.Rel.some
    use fun path => (halike.internal path).symm, fun path => (halike.external path).symm

theorem EdgesAlike.reaches (h : EdgesAlike edges edges') (hreaches : Reaches edges start path) :
  Reaches edges' start path
  := by
  induction hreaches with
  | refl => exact Relation.ReflTransGen.refl
  | @tail path path' _ hleads ih =>
    obtain ⟨e, he, hpath'⟩ := hleads
    obtain ⟨e', he', halike⟩ := h.exists_get? he
    exact ih.tail ⟨e', he', (halike.internal path').1 hpath'⟩

theorem EdgesAlike.blocking? (h : EdgesAlike edges edges') (ht : t.Alike t') (path : String) :
  blocking? t edges propagate path = PackageTree.blocking? t' edges' propagate path
  := by
  have hrel := h path
  unfold PackageTree.blocking?
  generalize edges.get? path = r, edges'.get? path = r' at hrel
  cases hrel with
  | none => rw [ht.passedFault?]
  | some halike => rfl

/-- What reached paths import from outside, they import in alike trees as well. -/
theorem EdgesAlike.imported (h : EdgesAlike edges edges')
    (himported : ∃ path' e, Reaches edges start path' ∧ edges.get? path' = some e ∧
      path ∈ e.external) :
  ∃ path' e, Reaches edges' start path' ∧ edges'.get? path' = some e ∧ path ∈ e.external
  := by
  obtain ⟨path', e, hreaches, he, hpath⟩ := himported
  obtain ⟨e', he', halike⟩ := h.exists_get? he
  exact ⟨path', e', h.reaches hreaches, he', (halike.external path).1 hpath⟩

/-- A search of an alike tree finds the same. -/
theorem EdgesAlike.run (h : EdgesAlike edges edges') (ht : t.Alike t') {e : ReachEntry}
    (hrun : (searchFrom edges start).run t edges propagate = .ok e) :
  (searchFrom edges' start).run t' edges' propagate = .ok e
  := by
  have hblocking := exists_run_iff.1 ⟨e, hrun⟩
  obtain ⟨e', hrun'⟩ : ∃ e', (searchFrom edges' start).run t' edges' propagate = .ok e' := by
    apply exists_run_iff.2
    intro path hreaches
    rw [← h.blocking? ht]
    apply hblocking path (h.symm.reaches hreaches)
  obtain ⟨s, rfl, hinternal, hexternal⟩ := exists_underway_of_run hrun
  obtain ⟨s', rfl, hinternal', hexternal'⟩ := exists_underway_of_run hrun'
  have hinternals : sortDedup s.internal = sortDedup s'.internal := by
    apply sortDedup_congr
    intro path
    rw [hinternal, hinternal']
    exact and_congr_left fun _ => ⟨h.reaches, h.symm.reaches⟩
  have hexternals : sortDedup s.external = sortDedup s'.external := by
    apply sortDedup_congr
    intro path
    rw [hexternal, hexternal']
    exact ⟨h.imported, h.symm.imported⟩
  rw [hrun', hinternals, hexternals]

end Edges

theorem EntryAlike.symm {r r' : Except PackageFault Package} (h : EntryAlike r r') :
  EntryAlike r' r
  := by
  cases h with
  | fault fault => apply EntryAlike.fault
  | package h =>
    apply EntryAlike.package
    use h.name.symm, fun path => (h.imports path).symm, fun path => (h.testImports path).symm

theorem Alike.symm (h : t.Alike t') :
  t'.Alike t
  := by
  use h.root.symm
  intro path
  have hrel := h.packages path
  generalize t.packages.get? path = r, t'.packages.get? path = r' at hrel
  cases hrel with
  | none => apply Option.Rel.none
  | some hentry => apply Option.Rel.some hentry.symm

theorem get?_reach (t : PackageTree) (o : ReachOptions) (start : String) :
  (t.reach o).1.get? start =
    ((t.edges o).get? start).bind fun _ =>
      ((searchFrom (t.edges o) start).run t (t.edges o) o.propagate).toOption
  := by
  simp only [reach, SortedMap.get?_filterMap, SortedMap.get?_mapValues]
  cases (t.edges o).get? start <;> rfl

/-- A package of a reach map reaches the same in an alike tree. -/
theorem Alike.get?_reach (h : t.Alike t') (ho : o.Alike o') {start : String} {e : ReachEntry}
    (he : (t.reach o).1.get? start = some e) :
  (t'.reach o').1.get? start = some e
  := by
  obtain ⟨⟨edge, hedge⟩, hrun⟩ := run_of_reach he
  obtain ⟨edge', hedge', -⟩ := (h.edges ho).exists_get? hedge
  rw [PackageTree.get?_reach, hedge', Option.bind_some, ← ho.propagate,
    (h.edges ho).run h hrun]
  rfl

theorem ReachOptions.Alike.symm (h : o.Alike o') :
  o'.Alike o
  := ⟨h.mains.symm, h.tests.symm, h.propagate.symm, fun pattern => (h.ignored pattern).symm⟩

/-- What the packages of a tree reach depends neither on the order in which they declare their
imports nor on how often. -/
theorem Alike.reach_eq (h : t.Alike t') (ho : o.Alike o') :
  (t.reach o).1 = (t'.reach o').1
  := by
  apply SortedMap.ext_get?
  intro start
  apply Option.ext
  intro e
  use h.get?_reach ho, h.symm.get?_reach (ReachOptions.Alike.symm ho)

end PackageTree
end DepLock
