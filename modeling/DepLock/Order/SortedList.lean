/-!
# Sorted lists without repeats

`sortDedup` brings a list into increasing order and keeps one of equal elements. `insertSorted`
adds an element to such a list.
-/

namespace DepLock

variable {α : Type}

/-- A list with each run of equal neighbours reduced to its first element. -/
def dedupAdjacent [DecidableEq α] : List α → List α
  | [] => []
  | [a] => [a]
  | a :: b :: l => if a = b then dedupAdjacent (a :: l) else a :: dedupAdjacent (b :: l)

/-- The order `compare` as a Boolean relation. -/
def orderedLE [Ord α] (a b : α) : Bool := (compare a b).isLE

/-- The elements of a list in increasing order, each once. -/
def sortDedup [Ord α] [DecidableEq α] (l : List α) : List α :=
  dedupAdjacent (l.mergeSort orderedLE)

/-- A sorted list with `a` added, unless it is there. -/
def insertSorted [Ord α] (a : α) : List α → List α
  | [] => [a]
  | b :: l =>
    match compare a b with
    | .lt => a :: b :: l
    | .eq => b :: l
    | .gt => b :: insertSorted a l

end DepLock
