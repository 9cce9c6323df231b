import DepLock.Order.SortedMap

/-!
# Sorted sets

A `SortedSet` is a sorted map without values of interest; two sets with the same elements are equal.
-/

namespace DepLock

open Std

/-- A finite set whose elements are listed in increasing order. -/
abbrev SortedSet (κ : Type) [Ord κ] : Type := SortedMap κ Unit

namespace SortedSet

variable {κ : Type} [Ord κ]

/-- The set with an element added. -/
def add [TransOrd κ] (s : SortedSet κ) (k : κ) : SortedSet κ := s.insert k ()

/-- The set of the elements of a list. -/
def ofList [TransOrd κ] (l : List κ) : SortedSet κ := l.foldl add ∅

end SortedSet
end DepLock
