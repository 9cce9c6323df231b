import DepLock.Files.Tree
import DepLock.Order.SortedSet
import DepLock.Package.Header
import DepLock.Package.Tree

/-!
# Listing the packages of a directory

A directory with Go source files is a package. `FileTree.listPackages` reads the headers of the
source files of all directories beneath one, except those that hold copies of other projects, test
data or hidden things.
-/

namespace DepLock

/-- The headers read so far from the files of a package. -/
structure PackageDraft where
  name : Option String := none
  imports : SortedSet String := ∅
  testImports : SortedSet String := ∅

namespace PackageDraft

/-- Whether a file holds tests. -/
def isTestFile (fileName : String) : Bool := Text.endsWith "_test.go" fileName

/-- The draft with a header added. Files for tests do not name the package, and all others must
agree on its name. -/
def add (d : PackageDraft) (path fileName : String) (h : SourceHeader) :
    Except PackageFault PackageDraft :=
  if isTestFile fileName then
    .ok { d with testImports := h.imports.foldl SortedSet.add d.testImports }
  else match d.name with
    | some name =>
      if name = h.package then .ok { d with imports := h.imports.foldl SortedSet.add d.imports }
      else .error (.conflictingNames path name h.package)
    | none =>
      .ok { d with name := some h.package, imports := h.imports.foldl SortedSet.add d.imports }

/-- The package at an import path. Without a name it takes the last element of the path. Imports of
tests that count anyway are left out. -/
def finish (d : PackageDraft) (path : String) : Package where
  name := d.name.getD (Text.lastPart '/' path)
  imports := d.imports.keys
  testImports := d.testImports.keys.filter fun p => !d.imports.contains p && p ≠ path

end PackageDraft

namespace FileTree

/-- Whether an element of a path hides what is at it. -/
def isHidden (element : String) : Bool :=
  Text.startsWith "." element || Text.startsWith "_" element

/-- Whether an element of a path hides the directory at it. -/
def isHiddenDirectory (element : String) : Bool :=
  isHidden element || element = "vendor" || element = "testdata"

/-- The directory and the name of a source file that the elements of a path lead to, unless it is
hidden. -/
def sourceFile? (elements : List String) : Option (List String × String) :=
  match elements.getLast? with
  | none => none
  | some fileName =>
    let directory := elements.dropLast
    if Text.endsWith ".go" fileName && !isHidden fileName && !directory.any isHiddenDirectory then
      some (directory, fileName)
    else none

/-- The source files beneath a place by their directories: their names and bytes, in order. -/
def sourceFiles (t : FileTree) (place : List String) :
    SortedMap (List String) (List (String × ByteArray)) :=
  (t.filesBeneath place).foldl (fun m (elements, bytes) =>
    match sourceFile? elements with
    | some (directory, fileName) =>
      m.alter directory fun files => files.getD [] ++ [(fileName, bytes)]
    | none => m) ∅

/-- The import path of a directory beneath the one of an import root. -/
def importPath (root : String) (directory : List String) : String :=
  "/".intercalate (root :: directory)

/-- The draft with the headers of some files of a directory added. -/
def readHeaders (path directory : String) :
    List (String × ByteArray) → PackageDraft → Except PackageFault PackageDraft
  | [], d => .ok d
  | (fileName, bytes) :: files, d =>
    match String.fromUTF8? bytes with
    | none => .error (.unreadable (Path.join directory fileName) FileFault.notText.message)
    | some source => match d.add path fileName (.ofText source) with
      | .error fault => .error fault
      | .ok d => readHeaders path directory files d

/-- The package of a directory. -/
def readPackage (path directory : String) (files : List (String × ByteArray)) :
    Except PackageFault Package :=
  (readHeaders path directory files {}).map (·.finish path)

/-- The packages beneath a directory, under an import root. -/
def listPackages (t : FileTree) (directory root : String) : Except ListError PackageTree :=
  match t.resolve directory with
  | .error _ => .error (.notFound directory)
  | .ok place =>
    if t.node? place ≠ some .directory then .error (.notFound directory)
    else
      let packages := (t.sourceFiles place).toList.map fun (elements, files) =>
        let path := importPath root elements
        (path, readPackage path (elements.foldl Path.join directory) files)
      .ok { root, packages := .ofList packages }

end FileTree
end DepLock
