import DepLock.Order.SortedMap
import DepLock.Version

/-!
# Git repositories

A repository is described by what its branches and tags name, and by its HEAD. An annotated tag
stands for what it is put on.
-/

namespace DepLock

/-- What a branch or a tag names: a commit, or the contents of a file. -/
inductive GitObject where
  | commit (revision : Revision)
  | blob (id : String)
  deriving DecidableEq, Repr

/-- The revision of a commit. -/
def GitObject.revision? : GitObject → Option Revision
  | commit r => some r
  | blob _ => none

/-- What is checked out: a branch, which need not exist yet, or a commit without a branch. -/
inductive GitHead where
  | branch (name : String)
  | detached (revision : Revision)
  deriving DecidableEq, Repr

/-- A repository. -/
structure GitRepository where
  head : GitHead
  branches : SortedMap String GitObject := ∅
  tags : SortedMap String GitObject := ∅

/-- The names in a map that name commits, with the revisions. -/
def GitObject.commits (m : SortedMap String GitObject) : SortedMap String Revision :=
  m.filterMap fun _ object => object.revision?

end DepLock
