import DepLock.Lock.Record
import DepLock.Toml.Parser
import DepLock.Toml.Printer

/-!
# Lock files

A lock file is a TOML document with the fields of a `LockRecord`, under a note that it is generated.
`Lock.render` writes the document, `Lock.renderFile` adds the note, and `Lock.parse` reads either.
-/

namespace DepLock

namespace LockedRecord

/-- The fields of an entry, in the order in which an entry without names lists them. -/
def fieldNames : List String := ["name", "source", "branch", "version", "revision", "packages"]

/-- The entry that a value describes. -/
def ofValue? (v : Toml.Value) : Option LockedRecord := do
  let fields ← v.fields? fieldNames
  let text (name : String) := fields.optional name Toml.Value.string?
  some { name := ← ← text "name", source := ← text "source", branch := ← text "branch"
         version := ← text "version", revision := ← text "revision"
         packages := ← fields.getOr "packages" [] Toml.Value.strings? }

/-- A field of an entry, unless it is missing. -/
def textField (name : String) : Option String → List (String × Toml.Field)
  | some s => [(name, .text s)]
  | none => []

/-- An entry as a block of a document. -/
def toBlock (r : LockedRecord) : Toml.Block where
  header := some "projects"
  fields := [("name", .text r.name)] ++ textField "source" r.source
    ++ textField "branch" r.branch ++ textField "version" r.version
    ++ textField "revision" r.revision ++ [("packages", .texts r.packages)]

end LockedRecord

namespace LockRecord

/-- The record that a document describes. -/
def ofTable? (t : Toml.Table) : Option LockRecord := do
  let projects (v : Toml.Value) : Option (List LockedRecord) :=
    v.elements?.bind fun vs => vs.mapM LockedRecord.ofValue?
  some { memo := ← Fields.getOr t.entries "memo" "" Toml.Value.string?
         projects := ← Fields.getOr t.entries "projects" [] projects }

/-- A record as a document. -/
def render (r : LockRecord) : String :=
  Toml.renderBlocks ({ fields := [("memo", .text r.memo)] } :: r.projects.map (·.toBlock))

end LockRecord

/-- Why a text is no lock. -/
inductive LockError where
  | syntaxError
  | fault (fault : LockFault)
  deriving DecidableEq

namespace Lock

/-- The document of a lock. -/
def render (l : Lock) : String := l.toRecord.render

/-- The note at the top of a lock file. -/
def fileNote : String :=
  "# This file is automatically generated by Wharf.\n"
    ++ "# It is not intended for manual editing.\n\n"

/-- The text of a lock file. -/
def renderFile (l : Lock) : String := fileNote ++ l.render

/-- The lock in the text of a lock file. -/
def parse (text : String) : Except LockError Lock :=
  match (Toml.parse? text).bind LockRecord.ofTable? with
  | none => .error .syntaxError
  | some r => match r.toLock with
    | .error fault => .error (.fault fault)
    | .ok l => .ok l

end Lock
end DepLock
