import DepLock.Manifest.File
import DepLock.Proofs.Constraint
import DepLock.Proofs.Order.SortedMap
import DepLock.Proofs.ProjectRoot

/-!
# Reading back the record of a manifest

A tag and a range are written to one field, so that the text alone decides what is read back.
`Manifest.reread` is the manifest that comes back (`Manifest.toManifest_toRecord`): a tag that reads
as a range becomes that range, and everything else stays as it is, except that an empty source is
none.
-/

namespace DepLock

/-- The constraint that is read back for a written one. -/
def Constraint.reread : Constraint → Constraint
  | .plain tag => RuleRecord.versionConstraint tag
  | c => c

/-- The rule that is read back for a written one. -/
def ProjectRule.reread (rule : ProjectRule) : ProjectRule :=
  .withSource rule.constraint.reread rule.source

/-- The manifest that is read back for a written one. -/
def Manifest.reread (m : Manifest) : Manifest where
  constraints := m.constraints.mapValues fun _ rule => rule.reread
  overrides := m.overrides.mapValues fun _ rule => rule.reread
  ignored := m.ignored
  required := m.required

/-- Every project has a name, and every range is well-formed. -/
def RulesWellformed (rules : SortedMap ProjectRoot ProjectRule) : Prop :=
  ∀ root rule, rules.get? root = some rule → root.text ≠ "" ∧ rule.constraint.Wellformed

namespace RuleRecord

/-- The constraint of the record of a rule. -/
theorem constraint?_ofRule (root : ProjectRoot) {rule : ProjectRule}
    (hrule : rule.constraint.Wellformed) :
  (ofRule root rule).constraint? = some rule.constraint.reread
  := by
  unfold ofRule constraint?
  cases hc : rule.constraint with
  | semver range =>
    have hread := Constraint.impliedCaret?_render (hrule range hc)
    simp [Constraint.reread, versionConstraint, hread]
  | _ => rfl

/-- A rule is read back from its record. -/
theorem toRule_ofRule {root : ProjectRoot} {rule : ProjectRule} (hroot : root.text ≠ "")
    (hrule : rule.constraint.Wellformed) :
  (ofRule root rule).toRule = .ok (root, rule.reread)
  := by
  have hname : (ofRule root rule).name = root.text := by
    unfold ofRule
    cases rule.constraint <;> rfl
  have hsource : (ofRule root rule).source = rule.source := by
    unfold ofRule
    cases rule.constraint <;> rfl
  rw [toRule, hname, if_neg hroot, constraint?_ofRule root hrule, hsource,
    ProjectRoot.ofString_text]
  rfl

end RuleRecord

namespace ManifestRecord

/-- The rules of a list without repeated projects are added to a map that has none of them. -/
theorem addRules_ofRule (repeated : ProjectRoot → ManifestFault)
    {l : List (ProjectRoot × ProjectRule)} (hl : KeysIncrease l)
    (hwf : ∀ e ∈ l, e.1.text ≠ "" ∧ e.2.constraint.Wellformed)
    {rules : SortedMap ProjectRoot ProjectRule} (hnew : ∀ e ∈ l, rules.contains e.1 = false) :
  addRules repeated (l.map fun e => .ofRule e.1 e.2) rules
    = .ok (l.foldl (fun rules e => rules.insert e.1 e.2.reread) rules)
  := by
  induction l generalizing rules with
  | nil => rfl
  | cons e l ih =>
    obtain ⟨⟨hroot, hrule⟩, hwf⟩ := List.forall_mem_cons.mp hwf
    obtain ⟨hfirst, hnew⟩ := List.forall_mem_cons.mp hnew
    rw [List.map_cons, addRules, RuleRecord.toRule_ofRule hroot hrule]
    simp only [hfirst, Bool.false_eq_true, if_false]
    rw [ih (List.pairwise_cons.mp hl).2 hwf, List.foldl_cons]
    intro e' he'
    rw [SortedMap.contains_insert, hnew e' he']
    simpa using (SortedMap.ne_of_mem_tail hl he').symm

/-- The rules of a map are read back from their records. -/
theorem addRules_toList (repeated : ProjectRoot → ManifestFault)
    {rules : SortedMap ProjectRoot ProjectRule} (hwf : RulesWellformed rules) :
  addRules repeated (rules.toList.map fun (root, rule) => .ofRule root rule) ∅
    = .ok (rules.mapValues fun _ rule => rule.reread)
  := by
  have hmem : ∀ e ∈ rules.toList, e.1.text ≠ "" ∧ e.2.constraint.Wellformed :=
    fun e he => hwf e.1 e.2 (SortedMap.get?_eq_some_iff.mpr he)
  rw [addRules_ofRule repeated rules.increasing hmem fun e _ => SortedMap.contains_empty e.1]
  congr 1
  apply SortedMap.ext_get?
  intro root
  have hfold := SortedMap.get?_foldl_insert
    (rules.mapValues fun _ rule => rule.reread).increasing ∅ root
  rw [SortedMap.mapValues, List.foldl_map] at hfold
  rw [hfold, SortedMap.get?_empty, Option.or_none]
  rfl

/-- A manifest is read back from its record, except for tags that read as ranges and for empty
sources. -/
theorem toManifest_toRecord {m : Manifest} (hconstraints : RulesWellformed m.constraints)
    (hoverrides : RulesWellformed m.overrides) :
  m.toRecord.toManifest = .ok m.reread
  := by
  rw [toManifest, Manifest.toRecord]
  simp only [addRules_toList _ hconstraints, addRules_toList _ hoverrides]
  rfl

end ManifestRecord

/-- A text that has a record is read as the manifest of the record. -/
theorem Manifest.parse_eq_ok {text : String} {r : ManifestRecord} {m : Manifest}
    (htoml : (Toml.parse? text).bind ManifestRecord.ofTable? = some r)
    (hmanifest : r.toManifest = .ok m) :
  parse text = .ok m
  := by
  unfold parse
  simp only [htoml, hmanifest]

/-- A manifest is read back from its file, when the record is. -/
theorem Manifest.parse_render {m : Manifest} (hconstraints : RulesWellformed m.constraints)
    (hoverrides : RulesWellformed m.overrides)
    (htoml : (Toml.parse? m.render).bind ManifestRecord.ofTable? = some m.toRecord) :
  parse m.render = .ok m.reread
  := by
  apply parse_eq_ok htoml (ManifestRecord.toManifest_toRecord hconstraints hoverrides)

end DepLock
