import DepLock.Files.Path
import DepLock.Order.SortedMap

/-!
# File trees

A `FileTree` holds directories and files with their bytes, by the elements of their paths. Reading
never changes a tree, and writing gives a new one, so that what an operation leaves behind is a
value like any other. Paths are resolved element by element: `..` goes up from where the walk is,
and anything beneath a file is refused.
-/

namespace DepLock

/-- A file with its bytes, or a directory. -/
inductive FileNode where
  | file (bytes : ByteArray)
  | directory

/-- Two files are the same if their bytes are. -/
instance : DecidableEq FileNode
  | .file a, .file b =>
    if h : a.data = b.data then isTrue (congrArg FileNode.file (ByteArray.ext h))
    else isFalse fun e => h (congrArg ByteArray.data (FileNode.file.inj e))
  | .directory, .directory => isTrue rfl
  | .file _, .directory => isFalse nofun
  | .directory, .file _ => isFalse nofun

/-- The number of bytes in a file. -/
def FileNode.byteCount : FileNode → Nat
  | file bytes => bytes.size
  | directory => 0

/-- Directories and files by the elements of their paths; the top is always a directory. -/
structure FileTree where
  nodes : SortedMap (List String) FileNode := ∅
  deriving DecidableEq

/-- Why a file cannot be read or written. -/
inductive FileFault where
  | notFound
  | notDirectory
  | isDirectory
  | notText
  deriving DecidableEq, Repr

/-- The text of a fault. -/
def FileFault.message : FileFault → String
  | notFound => "No such file or directory (os error 2)"
  | notDirectory => "Not a directory (os error 20)"
  | isDirectory => "Is a directory (os error 21)"
  | notText => "stream did not contain valid UTF-8"

namespace FileTree

/-- What is at a place. -/
def node? (t : FileTree) : List String → Option FileNode
  | [] => some .directory
  | place => t.nodes.get? place

/-- The place that one more element of a path leads to. -/
def step (t : FileTree) (place : List String) (element : String) :
    Except FileFault (List String) :=
  if t.node? place ≠ some .directory then .error .notDirectory
  else if element = "" ∨ element = "." then .ok place
  else if element = ".." then .ok place.dropLast
  else
    let next := place ++ [element]
    if (t.node? next).isSome then .ok next else .error .notFound

/-- The place that a path leads to. -/
def resolve (t : FileTree) (path : String) : Except FileFault (List String) :=
  if path = "" then .error .notFound
  else (Text.split '/' path).foldlM t.step []

/-- What a path leads to. -/
def lookup? (t : FileTree) (path : String) : Option FileNode :=
  (t.resolve path).toOption.bind t.node?

/-- Whether a path leads to something. -/
def holds (t : FileTree) (path : String) : Bool := (t.lookup? path).isSome

/-- Whether a path leads to a file. -/
def isFile (t : FileTree) (path : String) : Bool :=
  match t.lookup? path with
  | some (.file _) => true
  | _ => false

/-- Whether a path leads to a directory. -/
def isDirectory (t : FileTree) (path : String) : Bool := t.lookup? path = some .directory

/-- The path without detours that leads to the same place. -/
def canonical (t : FileTree) (path : String) : Except FileFault String :=
  (t.resolve path).map Path.ofElements

/-- The path without detours if the path leads anywhere, else the path itself. -/
def canonicalOrSelf (t : FileTree) (path : String) : String :=
  match t.canonical path with
  | .ok p => p
  | .error _ => path

/-- The text of the file that a path leads to. -/
def readText (t : FileTree) (path : String) : Except FileFault String := do
  match t.node? (← t.resolve path) with
  | some (.file bytes) =>
    match String.fromUTF8? bytes with
    | some text => .ok text
    | none => .error .notText
  | some .directory => .error .isDirectory
  | none => .error .notFound

/-- The tree with a node at a place, beneath directories. -/
def place (t : FileTree) (target : List String) (node : FileNode) : FileTree :=
  let above := (List.range target.length).filterMap fun n =>
    if n = 0 then none else some (target.take n)
  let nodes := above.foldl (fun m p => m.insert p .directory) t.nodes
  ⟨nodes.insert target node⟩

/-- The tree with a text written to a file in an existing directory. -/
def write (t : FileTree) (path text : String) : Except FileFault FileTree := do
  let elements := Text.split '/' path
  let parent ← elements.dropLast.foldlM t.step []
  match elements.getLast? with
  | none | some "" | some "." | some ".." => .error .isDirectory
  | some name =>
    if t.node? parent ≠ some .directory then .error .notDirectory
    else
      let target := parent ++ [name]
      if t.node? target = some .directory then .error .isDirectory
      else .ok ⟨t.nodes.insert target (.file text.toUTF8)⟩

/-- The files beneath a place with the elements that lead to them, in order. -/
def filesBeneath (t : FileTree) (place : List String) : List (List String × ByteArray) :=
  t.nodes.toList.filterMap fun (p, node) =>
    match place.isPrefixOf? p, node with
    | some rest, .file bytes => some (rest, bytes)
    | _, _ => none

/-- The names of what is in a directory. -/
def names (t : FileTree) (path : String) : List String :=
  match t.resolve path with
  | .error _ => []
  | .ok place => t.nodes.keys.filterMap fun p => match place.isPrefixOf? p with
    | some [name] => some name
    | _ => none

/-- The number of bytes in the files of a tree. -/
def byteCount (t : FileTree) : Nat :=
  t.nodes.values.foldr (fun node n => node.byteCount + n) 0

end FileTree
end DepLock
