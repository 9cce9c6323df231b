import DepLock.Files.Tree
import DepLock.Lock.File
import DepLock.Manifest.File

/-!
# Loading the files of a project

A file of a project is read and then parsed, and either may fail. A `LoadError` tells which file it
was and why.
-/

namespace DepLock

/-- A kind of file. -/
inductive FileKind where
  | manifest
  | lock
  | config
  deriving DecidableEq, Repr

/-- The word for a kind of file. -/
def FileKind.word : FileKind → String
  | manifest => "manifest"
  | lock => "lockfile"
  | config => "config"

/-- Why the text of a file is refused: it does not follow the grammar, or what it says is wrong. -/
inductive TextFault where
  | syntaxError
  | content (reason : String)
  deriving DecidableEq, Repr

/-- Why a file cannot be loaded. -/
inductive LoadError where
  | unreadable (kind : FileKind) (path : String) (fault : FileFault)
  | malformed (kind : FileKind) (path : String) (fault : TextFault)
  deriving DecidableEq, Repr

/-- The text of an error. -/
def LoadError.message : LoadError → String
  | unreadable kind path _ => s!"failed to read {kind.word}: {path}"
  | malformed kind path _ => s!"failed to parse {kind.word}: {path}"

namespace FileTree

/-- What `parse` makes of the text of a file. -/
def load {α : Type} (t : FileTree) (kind : FileKind) (path : String)
    (parse : String → Except TextFault α) : Except LoadError α :=
  match t.readText path with
  | .error fault => .error (.unreadable kind path fault)
  | .ok text => match parse text with
    | .error fault => .error (.malformed kind path fault)
    | .ok a => .ok a

/-- The manifest in a file. -/
def loadManifest (t : FileTree) (path : String) : Except LoadError Manifest :=
  t.load .manifest path fun text => match Manifest.parse text with
    | .ok m => .ok m
    | .error .syntaxError => .error .syntaxError
    | .error (.fault fault) => .error (.content fault.message)

/-- The lock in a file. -/
def loadLock (t : FileTree) (path : String) : Except LoadError Lock :=
  t.load .lock path fun text => match Lock.parse text with
    | .ok l => .ok l
    | .error .syntaxError => .error .syntaxError
    | .error (.fault fault) => .error (.content fault.message)

/-- The lock in a file, or an empty one if there is no such file. -/
def loadLockIfAny (t : FileTree) (path : String) : Except LoadError Lock :=
  if t.isFile path then t.loadLock path else .ok {}

end FileTree
end DepLock
