import DepLock.Order.SortedMap
import DepLock.Source.Deduction

/-!
# Sources written down

A `SourceTable` writes down what is known of some projects. As a `SourceManager` it answers from
what is written, and falls back on the form of an import path where no project is named.
-/

namespace DepLock

/-- Some projects: their roots, their versions, and those for which listing or fetching fails. -/
structure SourceTable where
  roots : List ProjectRoot := []
  versions : SortedMap ProjectRoot (List Version) := ∅
  unlisted : List ProjectRoot := []
  unreachable : List ProjectRoot := []

namespace SourceTable

/-- The longer of two roots, the first of equally long ones. -/
def longer (a b : ProjectRoot) : ProjectRoot :=
  if Text.byteLength a.text < Text.byteLength b.text then b else a

/-- The longest root in the table that contains an import path. -/
def owner? (t : SourceTable) (path : String) : Option ProjectRoot :=
  match (t.roots ++ t.versions.keys).filter (·.contains path) with
  | [] => none
  | root :: roots => some (roots.foldl longer root)

/-- The table as a source manager. -/
def manager (t : SourceTable) : SourceManager :=
  { deduceRoot := fun path => match t.owner? path with
      | some root => .ok root
      | none => Deduction.deduceRoot path
    listVersions := fun id =>
      if id.root ∈ t.unlisted then .error (.offline id.render)
      else .ok ((t.versions.get? id.root).getD [])
    sync := fun id => if id.root ∈ t.unreachable then .error (.offline id.render) else .ok () }

end SourceTable
end DepLock
