import DepLock.Proofs.Manifest.Record
import DepLock.Proofs.Toml.Characters

/-!
# The manifest that versions imply

`Manifest.inferred` constrains projects to what the versions imply that they are at. Written to a
file and read back, each constraint is the same and admits its version, unless it is a tag that names
no version but reads as a range (`Manifest.parse_render_inferred`).
-/

namespace DepLock

/-- Whether the ref of a version, if it has one, is a branch or what a tag names. -/
def Version.Classified (v : Version) : Prop :=
  ∀ ref, v.ref? = some ref →
    (∃ name isDefault, ref = .branch name isDefault) ∨ ∃ tag, ref = .ofTag tag

/-- The semantic version that a tag names is well-formed. -/
theorem Version.Classified.wellformed {v : Version} (hv : v.Classified) :
  v.Wellformed
  := by
  intro tag version href
  rcases hv _ href with ⟨name, isDefault, heq⟩ | ⟨text, heq⟩
  · cases heq
  · unfold Ref.ofTag at heq
    split at heq
    case h_1 hversion =>
      cases heq
      exact SemVer.wellformed_of_ofTag? hversion
    case h_2 => cases heq

/-- Whether the version is no tag that reads as a range although it names no semantic version. -/
def Version.ReadsBack (v : Version) : Prop :=
  ∀ tag, v.ref? = some (.plain tag) → Constraint.impliedCaret? tag = none

namespace Constraint

/-- Whether the constraint is no tag that reads as a range. -/
def ReadsBack (c : Constraint) : Prop := ∀ tag, c = .plain tag → impliedCaret? tag = none

/-- The constraint of a version is read back exactly if the version is. -/
theorem readsBack_iff {v : Version} {c : Constraint} (h : ofVersion? v = some c) :
  c.ReadsBack ↔ v.ReadsBack
  := by
  obtain ⟨ref, href, rfl⟩ := Option.map_eq_some_iff.mp h
  cases ref <;> simp [ReadsBack, Version.ReadsBack, href, ofRef, caret]

/-- The constraints that are read back unchanged. -/
theorem reread_eq_self_iff {c : Constraint} :
  c.reread = c ↔ c.ReadsBack
  := by
  constructor
  · rintro h tag rfl
    rw [reread, RuleRecord.versionConstraint] at h
    cases hread : impliedCaret? tag with
    | none => rfl
    | some c =>
      obtain ⟨range, rfl, -⟩ := wellformed_of_impliedCaret? hread
      rw [hread, Option.getD_some] at h
      cases h
  · intro h
    cases c with
    | plain tag => rw [reread, RuleRecord.versionConstraint, h tag rfl, Option.getD_none]
    | _ => rfl

/-- What is read back for the constraint of a version admits the version exactly if it is the same
constraint. -/
theorem admits_reread_iff {v : Version} {c : Constraint} (h : ofVersion? v = some c) :
  c.reread.admits v = true ↔ c.ReadsBack
  := by
  constructor
  · rintro hadmits tag rfl
    rw [reread, RuleRecord.versionConstraint] at hadmits
    cases hread : impliedCaret? tag with
    | none => rfl
    | some c =>
      obtain ⟨range, rfl, -⟩ := wellformed_of_impliedCaret? hread
      obtain ⟨ref, href, hplain⟩ := Option.map_eq_some_iff.mp h
      rw [hread, Option.getD_some] at hadmits
      -- a version whose ref is no semantic version is in no range
      cases ref with
      | plain tag => simp [admits, Version.semver?, href] at hadmits
      | branch name isDefault => simp [admits, Version.semver?, href] at hadmits
      | semver tag version => cases hplain
  · intro hback
    rw [reread_eq_self_iff.mpr hback]
    exact admits_of_ofVersion? h

end Constraint

namespace Manifest

/-- The manifest that constrains each project to what its version implies. -/
def inferred (assigned : SortedMap ProjectRoot (Version × Option String)) : Manifest where
  constraints := assigned.filterMap fun _ a =>
    (Constraint.ofVersion? a.1).map fun c => .withSource c a.2

variable {assigned : SortedMap ProjectRoot (Version × Option String)}

/-- A rule of the inferred manifest is what the version of its project implies. -/
theorem get?_inferred {root : ProjectRoot} {rule : ProjectRule} :
  (inferred assigned).constraints.get? root = some rule
    ↔ ∃ v source c, assigned.get? root = some (v, source) ∧ Constraint.ofVersion? v = some c
      ∧ .withSource c source = rule
  := by
  simp only [inferred, SortedMap.get?_filterMap, Option.bind_eq_some_iff, Option.map_eq_some_iff,
    Prod.exists, exists_and_left]

/-- Reading back what a version implies does not touch the source. -/
theorem reread_withSource (c : Constraint) (source : Option String) :
  (ProjectRule.withSource c source).reread = .withSource c.reread source
  := by
  simp [ProjectRule.reread, ProjectRule.withSource, ProjectId.nonEmptySource, Option.filter_filter]

theorem rulesWellformed_inferred
    (hroots : ∀ root a, assigned.get? root = some a → root.text ≠ "")
    (hversions : ∀ root a, assigned.get? root = some a → a.1.Classified) :
  RulesWellformed (inferred assigned).constraints
  := by
  rintro root rule hrule
  obtain ⟨v, source, c, hassigned, hc, rfl⟩ := get?_inferred.mp hrule
  exact ⟨hroots root _ hassigned,
    Constraint.wellformed_of_ofVersion? (hversions root _ hassigned).wellformed hc⟩

/-- What is read back for a project that a version was assigned to. -/
theorem get?_reread_inferred {root : ProjectRoot} {v : Version} {source : Option String}
    {c : Constraint} (hassigned : assigned.get? root = some (v, source))
    (hc : Constraint.ofVersion? v = some c) :
  (inferred assigned).reread.constraints.get? root = some (.withSource c.reread source)
  := by
  have hrule := get?_inferred.mpr ⟨v, source, c, hassigned, hc, rfl⟩
  rw [reread, SortedMap.get?_mapValues, hrule, Option.map_some, reread_withSource]

/-- The inferred manifest comes back unchanged if no version of it is a tag that only reads as a
range. -/
theorem reread_inferred_iff :
  (inferred assigned).reread = inferred assigned
    ↔ ∀ root v source, assigned.get? root = some (v, source) → v.ReadsBack
  := by
  constructor
  · intro hsame root v source hassigned tag href
    have hc : Constraint.ofVersion? v = some (.plain tag) := by
      rw [Constraint.ofVersion?, href]
      rfl
    have hget := get?_reread_inferred hassigned hc
    rw [hsame, get?_inferred.mpr ⟨v, source, _, hassigned, hc, rfl⟩] at hget
    have hreread : (Constraint.plain tag).reread = .plain tag := by
      simpa [ProjectRule.withSource] using hget.symm
    exact Constraint.reread_eq_self_iff.mp hreread tag rfl
  · intro hback
    have hconstraints : (inferred assigned).reread.constraints
        = (inferred assigned).constraints := by
      apply SortedMap.ext_get?
      intro root
      rw [reread, SortedMap.get?_mapValues]
      cases hrule : (inferred assigned).constraints.get? root with
      | none => rfl
      | some rule =>
        obtain ⟨v, source, c, hassigned, hc, rfl⟩ := get?_inferred.mp hrule
        have hself := Constraint.reread_eq_self_iff.mpr
          ((Constraint.readsBack_iff hc).mpr (hback root v source hassigned))
        rw [Option.map_some, reread_withSource, hself]
    rw [reread, Manifest.mk.injEq]
    exact ⟨hconstraints, rfl, rfl, rfl⟩

/-- The manifest that is inferred from versions is read back from its file with a constraint for
each of its own. The versions are admitted by what is read back, which is what was written, except
for tags that name no semantic version but read as a range; without such tags it is the same
manifest. -/
theorem parse_render_inferred
    (hroots : ∀ root a, assigned.get? root = some a → root.text ≠ "")
    (hversions : ∀ root a, assigned.get? root = some a → a.1.Classified)
    (htoml : (Toml.parse? (inferred assigned).render).bind ManifestRecord.ofTable?
      = some (inferred assigned).toRecord) :
  ∃ m, parse (inferred assigned).render = .ok m
    ∧ (m = inferred assigned
      ↔ ∀ root v source, assigned.get? root = some (v, source) → v.ReadsBack)
    ∧ ∀ root v source c, assigned.get? root = some (v, source) →
      Constraint.ofVersion? v = some c →
      ∃ c', m.constraints.get? root = some (.withSource c' source)
        ∧ (c' = c ↔ v.ReadsBack) ∧ (c'.admits v = true ↔ v.ReadsBack)
  := by
  have hparse := parse_render (rulesWellformed_inferred hroots hversions)
    (show RulesWellformed (inferred assigned).overrides from nofun) htoml
  use (inferred assigned).reread, hparse, reread_inferred_iff
  intro root v source c hassigned hc
  use c.reread, get?_reread_inferred hassigned hc
  rw [Constraint.reread_eq_self_iff, Constraint.admits_reread_iff hc, Constraint.readsBack_iff hc]
  exact ⟨Iff.rfl, Iff.rfl⟩

/-! ### Three versions, and a tag that is not read back -/

/-- A semantic version, a branch with another source, and a tag that names no semantic version. -/
def assignedSample : SortedMap ProjectRoot (Version × Option String) where
  toList := [
    (.ofString "github.com/x/pkg", .paired (.ofTag "v1.2.0-rc.1") ⟨"abc"⟩, none),
    (.ofString "github.com/x/stable", .named (.ofTag "stable-2017"), none),
    (.ofString "github.com/y/lib", .paired (.branch "master" true) ⟨"def"⟩,
      some "https://github.com/fork/lib.git")]
  increasing := by decide +kernel

/-- The sample is read back as it is. -/
theorem parse_render_inferred_sample :
  parse (inferred assignedSample).render = .ok (inferred assignedSample)
  := by
  have hroots : ∀ e ∈ assignedSample.toList, e.1.text ≠ "" := by decide
  have hclassified : ∀ e ∈ assignedSample.toList, e.2.1.Classified := by
    simp only [assignedSample, List.forall_mem_cons]
    refine ⟨?_, ?_, ?_, List.forall_mem_nil _⟩
    · rintro _ ⟨⟩
      exact .inr ⟨_, rfl⟩
    · rintro _ ⟨⟩
      exact .inr ⟨_, rfl⟩
    · rintro _ ⟨⟩
      exact .inl ⟨_, _, rfl⟩
  have hback : ∀ e ∈ assignedSample.toList, ∀ tag ∈ e.2.1.ref?.map Ref.name,
      e.2.1.ref? = some (.plain tag) → Constraint.impliedCaret? tag = none := by decide
  have htoml : (Toml.parse? (inferred assignedSample).render).bind ManifestRecord.ofTable?
      = some (inferred assignedSample).toRecord := by
    unfold render ManifestRecord.render
    apply Toml.read_of_ofChars? (Toml.toList_renderBlocks _)
    decide +kernel
  obtain ⟨m, hparse, hsame, -⟩ := parse_render_inferred
    (fun _ _ h => hroots _ (SortedMap.get?_eq_some_iff.mp h))
    (fun _ _ h => hclassified _ (SortedMap.get?_eq_some_iff.mp h)) htoml
  rw [hparse, hsame.mpr]
  intro root v source h tag href
  exact hback _ (SortedMap.get?_eq_some_iff.mp h) tag (by simp [href, Ref.name]) href

/-- A project at the tag `1.x`, which names no semantic version but reads as a range. -/
def assignedWild : SortedMap ProjectRoot (Version × Option String) where
  toList := [(.ofString "github.com/x/pkg", .named (.ofTag "1.x"), none)]
  increasing := List.pairwise_singleton _ _

/-- A tag that reads as a range is not read back. -/
theorem parse_render_inferred_wild :
  parse (inferred assignedWild).render ≠ .ok (inferred assignedWild)
  := by
  decide +kernel

end Manifest
end DepLock
