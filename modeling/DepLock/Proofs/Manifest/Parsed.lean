import DepLock.Proofs.Manifest.Inferred
import Mathlib.Data.List.TakeWhile

/-!
# Manifests that were read

The text of a version alone decides whether it is a range or a tag, and a range is written so that
the same range is read back. So what was read from a file is in normal form: written to a file
again, it is read back as the same manifest (`Manifest.parse_render_of_parse`).
-/

namespace DepLock

/-- The root of a name has a name, unless there are only slashes. -/
theorem ProjectRoot.text_ofString_ne_empty {name : String} (h : ∃ c ∈ name.toList, c ≠ '/') :
  (ofString name).text ≠ ""
  := by
  obtain ⟨c, hc, hslash⟩ := h
  intro hempty
  have hdrop : name.toList.reverse.dropWhile (· = '/') = [] := by
    simpa [ofString, Text.trimEndChar, Text.dropEndWhile] using congrArg String.toList hempty
  have hall := List.dropWhile_eq_nil_iff.mp hdrop c (List.mem_reverse.mpr hc)
  apply hslash (by simpa using hall)

/-- Whether a rule is in the form in which rules are read. -/
structure ProjectRule.Normal (rule : ProjectRule) : Prop where
  readsBack : rule.constraint.ReadsBack
  wellformed : rule.constraint.Wellformed
  source : ProjectId.nonEmptySource rule.source = rule.source

/-- A rule in normal form is read back as it is. -/
theorem ProjectRule.Normal.reread_eq {rule : ProjectRule} (h : rule.Normal) :
  rule.reread = rule
  := by
  rw [ProjectRule.reread, Constraint.reread_eq_self_iff.mpr h.readsBack, ProjectRule.withSource,
    h.source]

namespace RuleRecord

variable {r : RuleRecord}

/-- Whether there is more to the name of a record than slashes. -/
def Named (r : RuleRecord) : Prop := ∃ c ∈ r.name.toList, c ≠ '/'

instance (r : RuleRecord) : Decidable r.Named :=
  decidable_of_iff (r.name.toList.any fun c => c ≠ '/') (by simp [Named])

/-- The constraint that the text of a version means is a well-formed range or a tag that reads as
none. -/
theorem readsBack_versionConstraint (version : String) :
  (versionConstraint version).ReadsBack ∧ (versionConstraint version).Wellformed
  := by
  rw [versionConstraint]
  cases hread : Constraint.impliedCaret? version with
  | none =>
    constructor
    · rintro tag ⟨⟩
      apply hread
    · rintro range ⟨⟩
  | some c =>
    obtain ⟨range, rfl, hrange⟩ := Constraint.wellformed_of_impliedCaret? hread
    constructor
    · rintro tag ⟨⟩
    · rintro range' ⟨⟩
      apply hrange

/-- The constraint of a record is read back as it is. -/
theorem readsBack_of_constraint? {c : Constraint} (h : r.constraint? = some c) :
  c.ReadsBack ∧ c.Wellformed
  := by
  unfold constraint? at h
  split at h <;> cases h
  · exact ⟨nofun, nofun⟩
  · apply readsBack_versionConstraint
  · exact ⟨nofun, nofun⟩
  · exact ⟨nofun, nofun⟩

/-- The rule of a record is in normal form, and its project has a name if the record has. -/
theorem normal_of_toRule {root : ProjectRoot} {rule : ProjectRule}
    (h : r.toRule = .ok (root, rule)) :
  rule.Normal ∧ (r.Named → root.text ≠ "")
  := by
  rw [toRule] at h
  split at h
  · cases h
  · split at h
    · cases h
    next c hc =>
      cases h
      obtain ⟨hback, hwf⟩ := readsBack_of_constraint? hc
      constructor
      · exact ⟨hback, hwf, by simp [ProjectRule.withSource, ProjectId.nonEmptySource,
          Option.filter_filter]⟩
      · apply ProjectRoot.text_ofString_ne_empty

end RuleRecord

namespace ManifestRecord

variable {rs : List RuleRecord} {rules rules' : SortedMap ProjectRoot ProjectRule}
  {repeated : ProjectRoot → ManifestFault}

/-- Every rule that is there after some records were added was there before or is the rule of one
of the records. -/
theorem exists_of_addRules (h : addRules repeated rs rules = .ok rules') {root : ProjectRoot}
    {rule : ProjectRule} (hrule : rules'.get? root = some rule) :
  rules.get? root = some rule ∨ ∃ r ∈ rs, r.toRule = .ok (root, rule)
  := by
  induction rs generalizing rules with
  | nil =>
    cases h
    apply Or.inl hrule
  | cons r rs ih =>
    rw [addRules] at h
    split at h
    · cases h
    next root' rule' hread =>
      split at h
      · cases h
      · rcases ih h with hinsert | ⟨r', hr', hread'⟩
        · rw [SortedMap.get?_insert] at hinsert
          split at hinsert
          next hroot =>
            cases hinsert
            apply Or.inr
            use r, List.mem_cons_self
            rw [hread, hroot]
          next => apply Or.inl hinsert
        · apply Or.inr
          use r', List.mem_cons_of_mem _ hr'

/-- The rules of records with names are read back as they are. -/
theorem wellformed_of_addRules (h : addRules repeated rs ∅ = .ok rules)
    (hnames : ∀ r ∈ rs, r.Named) :
  RulesWellformed rules ∧ rules.mapValues (fun _ rule => rule.reread) = rules
  := by
  have hnormal : ∀ root rule, rules.get? root = some rule → rule.Normal ∧ root.text ≠ "" := by
    intro root rule hrule
    rcases exists_of_addRules h hrule with hnone | ⟨r, hr, hread⟩
    · cases hnone
    · obtain ⟨hrule, hroot⟩ := RuleRecord.normal_of_toRule hread
      exact ⟨hrule, hroot (hnames r hr)⟩
  constructor
  · intro root rule hrule
    obtain ⟨hrule, hroot⟩ := hnormal root rule hrule
    exact ⟨hroot, hrule.wellformed⟩
  · apply SortedMap.ext_get?
    intro root
    rw [SortedMap.get?_mapValues]
    cases hrule : rules.get? root with
    | none => rfl
    | some rule => rw [Option.map_some, (hnormal root rule hrule).1.reread_eq]

/-- The manifest of records with names is read back as it is. -/
theorem reread_of_toManifest {r : ManifestRecord} {m : Manifest} (h : r.toManifest = .ok m)
    (hnames : ∀ e ∈ r.constraints ++ r.overrides, e.Named) :
  RulesWellformed m.constraints ∧ RulesWellformed m.overrides ∧ m.reread = m
  := by
  rw [toManifest] at h
  split at h
  · cases h
  next constraints hconstraints =>
    split at h
    · cases h
    next overrides hoverrides =>
      cases h
      rw [List.forall_mem_append] at hnames
      obtain ⟨hwf, hreread⟩ := wellformed_of_addRules hconstraints hnames.1
      obtain ⟨hwf', hreread'⟩ := wellformed_of_addRules hoverrides hnames.2
      refine ⟨hwf, hwf', ?_⟩
      rw [Manifest.reread, hreread, hreread']

end ManifestRecord

namespace Manifest

/-- A manifest that was read from a text is read back from its own, and is written the same then. -/
theorem parse_render_of_parse {text : String} {m : Manifest} (h : parse text = .ok m)
    (hnames : ∀ r, (Toml.parse? text).bind ManifestRecord.ofTable? = some r →
      ∀ e ∈ r.constraints ++ r.overrides, e.Named)
    (htoml : (Toml.parse? m.render).bind ManifestRecord.ofTable? = some m.toRecord) :
  parse m.render = .ok m ∧ ∀ m', parse m.render = .ok m' → m'.render = m.render
  := by
  have hparse : parse m.render = .ok m := by
    rw [parse] at h
    split at h
    · cases h
    next r hr =>
      split at h
      · cases h
      next m' hread =>
        cases h
        obtain ⟨hconstraints, hoverrides, hreread⟩ :=
          ManifestRecord.reread_of_toManifest hread (hnames r hr)
        rw [parse_render hconstraints hoverrides htoml, hreread]
  refine ⟨hparse, ?_⟩
  intro m' hm'
  rw [hparse] at hm'
  cases hm'
  rfl

/-! ### A file that is not as it would be written -/

namespace Sample

/-- A tag with a zero in front, several comparators, and an empty source. -/
def text : String :=
  "required = [\"w.io\"]\n\n"
    ++ "[[constraint]]\nname = \"y.io/b/\"\nversion = \"v01\"\n\n"
    ++ "[[constraint]]\nname = \"x.io\"\nversion = \">=v1.2,<2.x\"\n\n"
    ++ "[[override]]\nname = \"z.io\"\nbranch = \"dev\"\nsource = \"\"\n"

/-- What the text says. -/
def record : ManifestRecord where
  required := ["w.io"]
  constraints := [
    { name := "y.io/b/", version := some "v01" },
    { name := "x.io", version := some ">=v1.2,<2.x" }]
  overrides := [{ name := "z.io", source := some "", branch := some "dev" }]

/-- The manifest in the text. -/
def manifest : Manifest where
  constraints :=
    { toList := [
        (.ofString "x.io", { constraint := RuleRecord.versionConstraint ">=1.2, <2" }),
        (.ofString "y.io/b", { constraint := .caret { major := 1, minor := 0, patch := 0 } })]
      increasing := by decide +kernel }
  overrides :=
    { toList := [(.ofString "z.io", { constraint := .branch "dev" })]
      increasing := List.pairwise_singleton _ _ }
  required := ["w.io"]

/-- The manifest is read from the text, and from what is written of it. -/
theorem parse_render_manifest :
  parse text = .ok manifest ∧ parse manifest.render = .ok manifest
  := by
  have hrecord : (Toml.parse? text).bind ManifestRecord.ofTable? = some record := by
    apply Toml.read_of_ofChars?
    · unfold text
      rw [String.toList_append, String.toList_append, String.toList_append,
        String.toList_ofList, String.toList_ofList, String.toList_ofList, String.toList_ofList]
    · decide +kernel
  have hmanifest : record.toManifest = .ok manifest := by decide
  have hparse : parse text = .ok manifest := parse_eq_ok hrecord hmanifest
  have hnames : ∀ e ∈ record.constraints ++ record.overrides, e.Named := by decide
  have htoml : (Toml.parse? manifest.render).bind ManifestRecord.ofTable?
      = some manifest.toRecord := by
    unfold render ManifestRecord.render
    apply Toml.read_of_ofChars? (Toml.toList_renderBlocks _)
    decide +kernel
  use hparse
  refine (parse_render_of_parse hparse ?_ htoml).1
  intro r hr
  rw [hrecord] at hr
  cases hr
  apply hnames

end Sample

end Manifest
end DepLock
