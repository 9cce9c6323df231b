import DepLock.Digest.Sha256
import DepLock.Order.SortedList

/-!
# The stream that a memo digests

The inputs of a solve are digested as a sequence of steps. Each step contributes texts that end in
NUL; the name of a section stands between dashes.
-/

namespace DepLock.InputStream

/-- A contribution to the stream. The items of `sorted` count as a set. -/
inductive Step where
  | heading (name : String)
  | text (s : String)
  | sorted (items : List String)
  deriving DecidableEq, Repr

/-- The end of each contribution. -/
def terminator : String := "\x00"

/-- What a step contributes. -/
def Step.render : Step → String
  | heading name => "-" ++ name ++ "-" ++ terminator
  | text s => s ++ terminator
  | sorted items => String.join ((sortDedup items).map (· ++ terminator))

/-- The stream of some steps. -/
def render (steps : List Step) : String := String.join (steps.map (·.render))

/-- The digest of the stream, in hexadecimal digits. -/
def digest (steps : List Step) : String := Sha256.hexOfText (render steps)

end DepLock.InputStream
