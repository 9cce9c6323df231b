import DepLock.Manifest.Basic

/-!
# The written form of a manifest

A `ManifestRecord` is what a manifest file says, field by field. A manifest has a record
(`Manifest.toRecord`), and a record has a manifest unless an entry has no name, an entry has more
than one kind of constraint, or two entries are for the same project.
-/

namespace DepLock

/-- An entry for one project. -/
structure RuleRecord where
  name : String
  source : Option String := none
  version : Option String := none
  branch : Option String := none
  revision : Option String := none
  deriving DecidableEq, Repr

/-- The fields of a manifest file. -/
structure ManifestRecord where
  required : List String := []
  ignored : List String := []
  constraints : List RuleRecord := []
  overrides : List RuleRecord := []
  deriving DecidableEq, Repr

/-- Why a record has no manifest. -/
inductive ManifestFault where
  | unnamed
  | severalKinds (name : String)
  | repeatedConstraint (root : ProjectRoot)
  | repeatedOverride (root : ProjectRoot)
  deriving DecidableEq

/-- The text of a fault. -/
def ManifestFault.message : ManifestFault → String
  | unnamed => "constraint entry is missing `name`"
  | severalKinds name =>
    s!"`{name}` may declare only one of `version`, `branch` or `revision`"
  | repeatedConstraint root => s!"multiple constraints declared for `{root.text}`"
  | repeatedOverride root => s!"multiple overrides declared for `{root.text}`"

namespace RuleRecord

/-- The record of a rule. -/
def ofRule (root : ProjectRoot) (rule : ProjectRule) : RuleRecord :=
  let base : RuleRecord := { name := root.text, source := rule.source }
  match rule.constraint with
  | .any => base
  | .semver range => { base with version := some range.render }
  | .plain tag => { base with version := some tag }
  | .branch name => { base with branch := some name }
  | .revision r => { base with revision := some r.text }

/-- The constraint that the text of a version means: a range if it is one, else a tag. -/
def versionConstraint (version : String) : Constraint :=
  (Constraint.impliedCaret? version).getD (.plain version)

/-- The constraint of a record, if it has at most one kind. -/
def constraint? (r : RuleRecord) : Option Constraint :=
  match r.version, r.branch, r.revision with
  | none, none, none => some .any
  | some version, none, none => some (versionConstraint version)
  | none, some branch, none => some (.branch branch)
  | none, none, some revision => some (.revision ⟨revision⟩)
  | _, _, _ => none

/-- The project and the rule of a record. -/
def toRule (r : RuleRecord) : Except ManifestFault (ProjectRoot × ProjectRule) :=
  if r.name = "" then .error .unnamed
  else match r.constraint? with
    | none => .error (.severalKinds r.name)
    | some c => .ok (.ofString r.name, .withSource c r.source)

end RuleRecord

namespace ManifestRecord

/-- The rules of some records, added to a map that must not have one for the same project. -/
def addRules (repeated : ProjectRoot → ManifestFault) :
    List RuleRecord → SortedMap ProjectRoot ProjectRule →
      Except ManifestFault (SortedMap ProjectRoot ProjectRule)
  | [], rules => .ok rules
  | r :: rs, rules =>
    match r.toRule with
    | .error fault => .error fault
    | .ok (root, rule) =>
      if rules.contains root then .error (repeated root)
      else addRules repeated rs (rules.insert root rule)

/-- The manifest of a record. -/
def toManifest (r : ManifestRecord) : Except ManifestFault Manifest :=
  match addRules .repeatedConstraint r.constraints ∅ with
  | .error fault => .error fault
  | .ok constraints =>
    match addRules .repeatedOverride r.overrides ∅ with
    | .error fault => .error fault
    | .ok overrides =>
      .ok { constraints, overrides, ignored := r.ignored, required := r.required }

end ManifestRecord

/-- The record of a manifest. -/
def Manifest.toRecord (m : Manifest) : ManifestRecord where
  required := m.required
  ignored := m.ignored
  constraints := m.constraints.toList.map fun (root, rule) => .ofRule root rule
  overrides := m.overrides.toList.map fun (root, rule) => .ofRule root rule

end DepLock
