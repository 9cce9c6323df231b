import DepLock.Discovery.Walk

/-!
# Walks along an itinerary

The order in which a walk goes through the imports of a package is a choice. An `Itinerary` makes it
for each package, and `Discovery.walkAlong` is the walk with the imports in that order; the walk
itself is the one that takes the imports as they are listed. A package is gone through at most once,
so an itinerary settles all choices of a walk.
-/

namespace DepLock

/-- An order for the imports of each package. -/
structure Itinerary where
  arrange : String → List String → List String
  perm : ∀ path imports, (arrange path imports).Perm imports

namespace Itinerary

/-- The itinerary that takes imports as they are listed. -/
def listed : Itinerary where
  arrange _ imports := imports
  perm _ imports := .refl imports

/-- The itinerary that takes imports from the last to the first. -/
def reversed : Itinerary where
  arrange _ imports := imports.reverse
  perm _ imports := imports.reverse_perm

theorem mem_arrange {i : Itinerary} {path path' : String} {imports : List String} :
  path' ∈ i.arrange path imports ↔ path' ∈ imports
  := (i.perm path imports).mem_iff

end Itinerary

namespace Discovery

variable {d : Discovery} {home : ProjectRoot} {direct : List String} {path : String}
  {budget : Nat} {w : Walk}

/-- The walk after a package is visited with all that is imported from it in the order of an
itinerary, if at most `budget` packages are nested. -/
def visitAlong (d : Discovery) (i : Itinerary) (home : ProjectRoot) :
    Nat → Walk → String → Option (Except WalkFailure Walk)
  | 0, _, _ => none
  | budget + 1, w, path =>
    match d.enter home w path with
    | .error f => some (.error f)
    | .ok (w, none) => some (.ok w)
    | .ok (w, some imports) =>
      (visitEach (d.visitAlong i home budget) w (i.arrange path imports)).map fun r =>
        r.map (·.paint path .black)

/-- The walk over the direct imports of a project, with the imports of each package in the order of
an itinerary. -/
def walkAlong (d : Discovery) (i : Itinerary) (home : ProjectRoot) (direct : List String)
    (budget : Nat) (w : Walk) : Option (Except WalkFailure Walk) :=
  match d.classifyAll w direct with
  | .error f => some (.error f)
  | .ok w => visitEach (d.visitAlong i home budget) w direct

theorem visitAlong_listed (d : Discovery) (home : ProjectRoot) (budget : Nat) :
  d.visitAlong .listed home budget = d.visit home budget
  := by
  induction budget with
  | zero => rfl
  | succ budget ih =>
    funext w path
    rw [visitAlong, visit, ih]
    rfl

/-- The walk is the one that takes imports as they are listed. -/
theorem walkAlong_listed (d : Discovery) (home : ProjectRoot) (direct : List String)
    (budget : Nat) (w : Walk) :
  d.walkAlong .listed home direct budget w = d.walk home direct budget w
  := by
  unfold walkAlong walk
  cases d.classifyAll w direct with
  | error f => rfl
  | ok w =>
    apply congrArg (fun visit => visitEach visit w direct) (d.visitAlong_listed home budget)

end Discovery
end DepLock
