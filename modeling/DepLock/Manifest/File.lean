import DepLock.Manifest.Record
import DepLock.Toml.Parser
import DepLock.Toml.Printer

/-!
# Manifest files

A manifest file is a TOML document with the fields of a `ManifestRecord`. Unknown fields are
skipped. `Manifest.render` writes such a file and `Manifest.parse` reads one.
-/

namespace DepLock

namespace RuleRecord

/-- The fields of an entry, in the order in which an entry without names lists them. -/
def fieldNames : List String := ["name", "source", "version", "branch", "revision"]

/-- The entry that a value describes. -/
def ofValue? (v : Toml.Value) : Option RuleRecord := do
  let fields ← v.fields? fieldNames
  let text (name : String) := fields.optional name Toml.Value.string?
  some { name := ← ← text "name", source := ← text "source", version := ← text "version"
         branch := ← text "branch", revision := ← text "revision" }

/-- A field of an entry, unless it is missing. -/
def textField (name : String) : Option String → List (String × Toml.Field)
  | some s => [(name, .text s)]
  | none => []

/-- An entry as a block of a document. -/
def toBlock (header : String) (r : RuleRecord) : Toml.Block where
  header := some header
  fields := [("name", .text r.name)] ++ textField "source" r.source
    ++ textField "version" r.version ++ textField "branch" r.branch
    ++ textField "revision" r.revision

end RuleRecord

namespace ManifestRecord

/-- The record that a document describes. -/
def ofTable? (t : Toml.Table) : Option ManifestRecord := do
  let rules (v : Toml.Value) : Option (List RuleRecord) :=
    v.elements?.bind fun vs => vs.mapM RuleRecord.ofValue?
  some { required := ← Fields.getOr t.entries "required" [] Toml.Value.strings?
         ignored := ← Fields.getOr t.entries "ignored" [] Toml.Value.strings?
         constraints := ← Fields.getOr t.entries "constraint" [] rules
         overrides := ← Fields.getOr t.entries "override" [] rules }

/-- A list of texts as a field, unless it is empty. -/
def textsField (name : String) : List String → List (String × Toml.Field)
  | [] => []
  | ss => [(name, .texts ss)]

/-- A record as a document. -/
def render (r : ManifestRecord) : String :=
  Toml.renderBlocks <|
    { fields := textsField "required" r.required ++ textsField "ignored" r.ignored }
      :: r.constraints.map (RuleRecord.toBlock "constraint")
      ++ r.overrides.map (RuleRecord.toBlock "override")

end ManifestRecord

/-- Why a text is no manifest. -/
inductive ManifestError where
  | syntaxError
  | fault (fault : ManifestFault)
  deriving DecidableEq

namespace Manifest

/-- The text of a manifest file. -/
def render (m : Manifest) : String := m.toRecord.render

/-- The manifest in the text of a manifest file. -/
def parse (text : String) : Except ManifestError Manifest :=
  match (Toml.parse? text).bind ManifestRecord.ofTable? with
  | none => .error .syntaxError
  | some r => match r.toManifest with
    | .error fault => .error (.fault fault)
    | .ok m => .ok m

end Manifest
end DepLock
