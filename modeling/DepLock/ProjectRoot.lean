import DepLock.ImportPath

/-!
# Project roots

A `ProjectRoot` is the import path under which all packages of one project lie. It never ends in a
slash. A package of the project has a name relative to the root, which is `.` for the root itself.
A `ProjectId` adds an optional other place to fetch the project from.
-/

namespace DepLock

open Std

/-- The common beginning of a project's import paths, without a slash at its end. -/
structure ProjectRoot where
  text : String
  trimmed : text.toList.getLast? ≠ some '/'
  deriving DecidableEq

namespace ProjectRoot

theorem getLast?_dropEndWhile (p : Char → Bool) (cs : List Char) (c : Char) (hc : p c) :
  (Text.dropEndWhile p cs).getLast? ≠ some c
  := by
  simp only [Text.dropEndWhile, List.getLast?_reverse]
  intro h
  have := List.head?_dropWhile_not p cs.reverse
  simp_all

/-- The root that a text names, without its trailing slashes. -/
def ofString (s : String) : ProjectRoot where
  text := Text.trimEndChar '/' s
  trimmed := by
    rw [Text.trimEndChar, String.toList_ofList]
    exact getLast?_dropEndWhile _ _ _ (by simp)

instance : Inhabited ProjectRoot := ⟨ofString ""⟩

instance : Ord ProjectRoot := ⟨fun a b => compare a.text b.text⟩

theorem compare_def (a b : ProjectRoot) :
  compare a b = compare a.text b.text
  := rfl

instance : TransOrd ProjectRoot where
  eq_swap {a b} := by
    simp only [compare_def]
    exact OrientedCmp.eq_swap
  isLE_trans {a b c} hab hbc := by
    simp only [compare_def] at *
    exact TransCmp.isLE_trans hab hbc

instance : LawfulEqOrd ProjectRoot where
  compare_self {a} := by
    simp only [compare_def]
    exact ReflCmp.compare_self
  eq_of_compare {a b} h := by
    cases a
    cases b
    simp only [compare_def] at h
    simp [LawfulEqCmp.eq_of_compare h]

/-- Whether a package path is the root or lies beneath it. -/
def contains (root : ProjectRoot) (path : String) : Bool :=
  match root.text.toList.isPrefixOf? path.toList with
  | some [] => true
  | some (c :: _) => c = '/'
  | none => false

/-- The name of a package relative to the root: `.` for the root, and paths outside the root are
kept. -/
def relative (root : ProjectRoot) (path : String) : String :=
  match root.text.toList.isPrefixOf? path.toList with
  | some [] => "."
  | some ('/' :: rest) => String.ofList rest
  | _ => path

/-- A list of characters without the segments `./` in front. -/
def dropDotSlashes : List Char → List Char
  | '.' :: '/' :: cs => dropDotSlashes cs
  | cs => cs

/-- The path of a package named relative to the root. -/
def absolute (root : ProjectRoot) (rel : String) : String :=
  if rel = "." ∨ rel = "" then root.text
  else root.text ++ "/" ++ String.ofList (dropDotSlashes rel.toList)

end ProjectRoot

/-- A project and where to fetch it from, if not from its root. Ids that differ in the source name
different projects to a solver. -/
structure ProjectId where
  root : ProjectRoot
  source : Option String := none
  deriving DecidableEq, Inhabited

namespace ProjectId

/-- A source, unless it is empty. -/
def nonEmptySource (source : Option String) : Option String :=
  source.filter (· ≠ "")

/-- The id with a source, if it is not empty. -/
def withSource (root : ProjectRoot) (source : Option String) : ProjectId :=
  ⟨root, nonEmptySource source⟩

/-- The source, or else the root. -/
def location (id : ProjectId) : String :=
  id.source.getD id.root.text

/-- The root, with the source in parentheses. -/
def render (id : ProjectId) : String :=
  match id.source with
  | some source => s!"{id.root.text} ({source})"
  | none => id.root.text

/-- Ids by root, then by source, without a source first. -/
def compare (a b : ProjectId) : Ordering :=
  (Ord.compare a.root b.root).then (Ord.compare a.source b.source)

instance : Ord ProjectId := ⟨compare⟩

/-- The address to fetch from: a source with a scheme or a user is one, another text is a host and
a path. -/
def remoteUrl (id : ProjectId) : String :=
  let location := id.location
  if Text.contains "://" location || Text.startsWith "git@" location then location
  else "https://" ++ location

end ProjectId
end DepLock
