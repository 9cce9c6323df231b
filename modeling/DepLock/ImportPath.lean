import DepLock.Text.Split

/-!
# Import paths

An import path is a text whose elements are separated by slashes. The first element tells the
standard library from hosted packages.
-/

namespace DepLock.ImportPath

/-- The elements of a path. -/
def elements (path : String) : List String := Text.split '/' path

/-- The path with the given elements. -/
def ofElements (elements : List String) : String := "/".intercalate elements

/-- Whether a path belongs to the standard library: its first element has no point. -/
def isStandard (path : String) : Bool :=
  !(path.toList.takeWhile (· ≠ '/')).contains '.'

end DepLock.ImportPath
