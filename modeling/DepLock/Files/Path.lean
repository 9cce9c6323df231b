import DepLock.Text.Split

/-!
# Paths

A path is a text whose elements are separated by slashes. `join` puts one path after another,
`parent?` goes up, and `relativeTo?` names a path from a directory above it. None of them looks at
files.
-/

namespace DepLock.Path

/-- Whether a path starts at the top. -/
def isAbsolute (p : String) : Bool := Text.startsWith "/" p

/-- The path `p` as seen from `base`; an absolute path stands for itself. -/
def join (base p : String) : String :=
  if isAbsolute p || base = "" then p
  else if Text.endsWith "/" base then base ++ p
  else base ++ "/" ++ p

/-- The elements of a path. Empty elements and those that stay in place are left out. -/
def elements (p : String) : List String :=
  (Text.split '/' p).filter fun e => e ≠ "" && e ≠ "."

/-- The absolute path with the given elements. -/
def ofElements (es : List String) : String := "/" ++ "/".intercalate es

/-- The absolute path above `p`, except above the top. -/
def parent? (p : String) : Option String :=
  match elements p with
  | [] => none
  | es => some (ofElements es.dropLast)

/-- The elements that lead from `base` down to `p`. -/
def relativeTo? (base p : String) : Option (List String) :=
  if isAbsolute base = isAbsolute p then (elements base).isPrefixOf? (elements p) else none

end DepLock.Path
