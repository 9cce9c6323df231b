import DepLock.Text.Split

/-!
# Ignored paths

An ignore list names import paths to leave out: each pattern is a path, or a beginning of paths
followed by a star.
-/

namespace DepLock

/-- Whether a pattern covers a path: a star at its end stands for any ending. -/
def patternCovers (pattern path : String) : Bool :=
  match Text.stripSuffix? "*" pattern with
  | some beginning => Text.startsWith beginning path
  | none => path = pattern

/-- Whether some pattern covers a path. -/
def isIgnoredBy (patterns : List String) (path : String) : Bool :=
  patterns.any fun pattern => patternCovers pattern path

end DepLock
