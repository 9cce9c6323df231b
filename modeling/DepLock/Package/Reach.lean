import DepLock.Order.SortedList
import DepLock.Package.Ignore
import DepLock.Package.Tree

/-!
# Reachability among the packages of a tree

`PackageTree.reach` tells for each usable package which packages of its own project it reaches
through usable packages and which other packages are imported on the way. A search keeps the
packages it has not seen apart from the stack of those it has yet to expand; a step takes one off
the stack and moves some of the unseen ones onto it, so the search ends.
-/

namespace DepLock

/-- What is reachable from one package: packages of its own tree, and imports that leave it. Both
lists are sorted and without repeats. -/
structure ReachEntry where
  internal : List String := []
  external : List String := []
  deriving DecidableEq, Repr

/-- What is reachable from each package, by import path. -/
abbrev ReachMap := SortedMap String ReachEntry

namespace ReachMap

/-- All external imports, sorted; those of the standard library only if `withStandard`. -/
def externalImports (m : ReachMap) (withStandard : Bool) : List String :=
  sortDedup ((m.values.flatMap (·.external)).filter fun path =>
    withStandard || !ImportPath.isStandard path)

end ReachMap

/-- Which packages and imports count. -/
structure ReachOptions where
  mains : Bool
  tests : Bool
  /-- Whether a package that reaches a fault is at fault itself. -/
  propagate : Bool
  ignored : List String := []

namespace PackageTree

/-- The imports of a package that count: not ignored, and not the package itself. -/
def countedImports (o : ReachOptions) (path : String) (p : Package) : List String :=
  (p.imports ++ if o.tests then p.testImports else []).filter fun i =>
    !isIgnoredBy o.ignored i && i ≠ path

/-- The package at a path, unless it is ignored, at fault, or a command that does not count. -/
def usable? (o : ReachOptions) (path : String) : Except PackageFault Package → Option Package
  | .ok p =>
    if isIgnoredBy o.ignored path || (p.isMain && !o.mains) then none else some p
  | .error _ => none

/-- The direct imports of every usable package, internal ones apart from external ones, in the
order of declaration. -/
def edges (t : PackageTree) (o : ReachOptions) : SortedMap String ReachEntry :=
  t.packages.filterMap fun path p =>
    (usable? o path p).map fun p =>
      let (internal, external) := (countedImports o path p).partition t.isInternal
      { internal, external }

/-- The faults of the packages that are not ignored. -/
def ownFaults (t : PackageTree) (o : ReachOptions) : SortedMap String PackageFault :=
  t.packages.filterMap fun path p => match p with
    | .error fault => if isIgnoredBy o.ignored path then none else some fault
    | .ok _ => none

/-- The fault that a path without direct imports passes on: packages of the tree that do not count
pass on none. -/
def passedFault? (t : PackageTree) (path : String) : Option PackageFault :=
  match t.packages.get? path with
  | some (.error _) => some (.importsFaulty path)
  | none => some (.missingInternal path)
  | some (.ok _) => none

/-- A search in progress: the paths not seen yet, the paths to expand, and what was found. -/
structure Search where
  unseen : List String
  stack : List String
  internal : List String := []
  external : List String := []

namespace Search

/-- The path moved from the unseen ones onto the stack, if it is unseen. -/
def visit (s : Search) (path : String) : Search :=
  if path ∈ s.unseen then
    { s with unseen := s.unseen.erase path, stack := path :: s.stack
             internal := path :: s.internal }
  else s

/-- How many paths a search may still expand. -/
def size (s : Search) : Nat := s.unseen.length + s.stack.length

theorem size_visit (s : Search) (path : String) :
  (s.visit path).size = s.size
  := by
  unfold visit size
  split
  next h =>
    have := List.length_pos_of_mem h
    simp [List.length_erase_of_mem h]
    omega
  next => rfl

theorem size_foldl_visit (s : Search) (paths : List String) :
  (paths.foldl visit s).size = s.size
  := by
  induction paths generalizing s with
  | nil => rfl
  | cons p ps ih => rw [List.foldl_cons, ih, size_visit]

/-- The outcome of a search: what it reaches, or the first fault that it meets. -/
def run (t : PackageTree) (edges : SortedMap String ReachEntry) (propagate : Bool) (s : Search) :
    Except PackageFault ReachEntry :=
  match _hs : s.stack with
  | [] => .ok ⟨sortDedup s.internal, sortDedup s.external⟩
  | path :: stack =>
    match edges.get? path with
    | none =>
      match if propagate then t.passedFault? path else none with
      | some fault => .error fault
      | none => run t edges propagate { s with stack }
    | some e =>
      let s' : Search := { s with stack, external := s.external ++ e.external }
      run t edges propagate (e.internal.foldl visit s')
termination_by s.size
decreasing_by
  · simp [size, _hs]
  · rw [size_foldl_visit]
    simp [size, _hs]

end Search

/-- The search from one package over the given direct imports. -/
def searchFrom (edges : SortedMap String ReachEntry) (start : String) : Search where
  unseen := ((edges.values.flatMap (·.internal)).eraseDups).filter (· ≠ start)
  stack := [start]

/-- What each usable package reaches, and the faults of the others. -/
def reach (t : PackageTree) (o : ReachOptions) : ReachMap × SortedMap String PackageFault :=
  let edges := t.edges o
  let outcomes := edges.mapValues fun start _ =>
    (searchFrom edges start).run t edges o.propagate
  (outcomes.filterMap fun _ r => r.toOption,
    (t.ownFaults o).overlay (outcomes.filterMap fun _ r => match r with
      | .ok _ => none
      | .error fault => some fault))

/-- What each package reaches when commands count and tests, faults and ignore lists do not. -/
def importReach (t : PackageTree) : ReachMap :=
  (t.reach { mains := true, tests := false, propagate := false }).1

end PackageTree
end DepLock
