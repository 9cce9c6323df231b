import DepLock.Proofs.SemVer.Precedence
import DepLock.Proofs.Version

/-!
# What the order of preference tells apart

Where the semantic version of a tag is the one that the tag names, two versions are equally
preferred exactly when they have the same class and the same name. Of two semantic versions the
older one is preferred less, and two tags of one semantic version are ordered as texts, so that no
two tags tie (`Version.upgradeCompare_laws`).
-/

namespace DepLock.Version

open Std

variable {v w : Version} {version version' : SemVer}

/-- Whether the semantic version, if there is one, is the one that the tag names. -/
def NamedByTag (v : Version) : Prop :=
  ∀ tag version, v.ref? = some (.semver tag version) → SemVer.ofTag? tag = some version

/-- A tag that is classified names its semantic version. -/
theorem namedByTag_of_ref? {tag : String} (h : v.ref? = some (.ofTag tag)) :
  v.NamedByTag
  := by
  intro tag' version href
  rw [h, Option.some.injEq] at href
  unfold Ref.ofTag at href
  split at href
  next hversion =>
    cases href
    exact hversion
  next => cases href

theorem exists_ref?_of_semver? (h : v.semver? = some version) :
  ∃ tag, v.ref? = some (.semver tag version)
  := by
  unfold semver? at h
  split at h
  next tag version href =>
    cases h
    exact ⟨tag, href⟩
  next => cases h

namespace NamedByTag

theorem ofTag?_render (h : v.NamedByTag) (hv : v.semver? = some version) :
  SemVer.ofTag? v.render = some version
  := by
  obtain ⟨tag, href⟩ := exists_ref?_of_semver? hv
  rw [render_of_ref? href]
  exact h tag version href

theorem wellformed (h : v.NamedByTag) (hv : v.semver? = some version) :
  version.Wellformed
  := SemVer.wellformed_of_ofTag? (h.ofTag?_render hv)

/-- Versions of one class and one name have the same semantic version, or none. -/
theorem semver?_eq (hv : v.NamedByTag) (hw : w.NamedByTag)
    (hclass : v.upgradeClass = w.upgradeClass) (hrender : v.render = w.render) :
  v.semver? = w.semver?
  := by
  have hsome : v.semver?.isSome = true ↔ w.semver?.isSome = true := by
    rw [isSome_semver?_iff, isSome_semver?_iff, hclass]
  cases hversion : v.semver? with
  | none =>
    rw [hversion] at hsome
    symm
    simpa using hsome
  | some version =>
    rw [hversion] at hsome
    obtain ⟨version', hversion'⟩ := Option.isSome_iff_exists.1 (hsome.1 rfl)
    rw [hversion', ← hv.ofTag?_render hversion, ← hw.ofTag?_render hversion', hrender]

/-- Equally preferred are exactly the versions of one class and one name. -/
theorem upgradeCompare_eq_iff (hv : v.NamedByTag) (hw : w.NamedByTag) :
  v.upgradeCompare w = .eq ↔ v.upgradeClass = w.upgradeClass ∧ v.render = w.render
  := by
  constructor
  · exact eq_of_upgradeCompare
  · rintro ⟨hclass, hrender⟩
    rw [Version.upgradeCompare_eq, compareLex_eq_eq, compareLex_eq_eq]
    refine ⟨?_, ?_, ?_⟩
    · rw [compareOn, hclass, compare_self]
    · rw [semver?_eq hv hw hclass hrender, compare_self]
    · rw [compareOn, hrender, compare_self]

end NamedByTag

/-- Semantic versions are compared the other way round, and tags of one of them as texts. -/
theorem upgradeCompare_of_semver? (hv : v.semver? = some version) (hw : w.semver? = some version') :
  v.upgradeCompare w = (compare version' version).then (compare v.render w.render)
  := by
  have hclassV : v.upgradeClass = 0 := isSome_semver?_iff.1 (by rw [hv, Option.isSome_some])
  have hclassW : w.upgradeClass = 0 := isSome_semver?_iff.1 (by rw [hw, Option.isSome_some])
  rw [upgradeCompare, hclassV, hclassW, newestFirst, hv, hw, compare_self]
  rfl

/-- Of semantic versions the newer one is preferred, and of tags of one of them the first as a
text. -/
theorem upgradeCompare_lt_iff (hversion : version.Wellformed) (hversion' : version'.Wellformed)
    (hv : v.semver? = some version) (hw : w.semver? = some version') :
  v.upgradeCompare w = .lt ↔ version'.Older version ∨ version = version' ∧ v.render < w.render
  := by
  have htext : compare v.render w.render = .lt ↔ v.render < w.render := LawfulLTCmp.eq_lt_iff_lt
  rw [upgradeCompare_of_semver? hv hw, Ordering.then_eq_lt,
    SemVer.compare_eq_lt_iff hversion' hversion, LawfulEqCmp.compare_eq_iff_eq, eq_comm, htext]

/-- The order of preference turns around with its arguments and goes through along chains, ties
included. It separates versions by class and name, and of semantic versions the newer one comes
first, whatever their tags are. -/
theorem upgradeCompare_laws (a b c : Version) :
  b.upgradeCompare a = (a.upgradeCompare b).swap ∧
    (∀ o, a.upgradeCompare b = o → b.upgradeCompare c = o → a.upgradeCompare c = o) ∧
    (a.upgradeCompare b = .eq → a.upgradeCompare c = b.upgradeCompare c) ∧
    (b.upgradeCompare c = .eq → a.upgradeCompare c = a.upgradeCompare b) ∧
    (a.NamedByTag → b.NamedByTag →
      (a.upgradeCompare b = .eq ↔ a.upgradeClass = b.upgradeClass ∧ a.render = b.render) ∧
      ∀ va vb, a.semver? = some va → b.semver? = some vb →
        (compare va vb = .gt ↔ vb.Older va) ∧
        (a.upgradeCompare b = .lt ↔ vb.Older va ∨ va = vb ∧ a.render < b.render) ∧
        (a.render ≠ b.render → a.upgradeCompare b = .lt ∨ b.upgradeCompare a = .lt))
  := by
  have hswap : b.upgradeCompare a = (a.upgradeCompare b).swap := OrientedCmp.eq_swap
  refine ⟨hswap, ?chain, TransCmp.congr_left, fun h => (TransCmp.congr_right h).symm, ?named⟩
  case chain =>
    intro o hab hbc
    cases o with
    | lt => exact TransCmp.lt_trans hab hbc
    | eq => exact TransCmp.eq_trans hab hbc
    | gt => exact TransCmp.gt_trans hab hbc
  case named =>
    intro ha hb
    have htie := ha.upgradeCompare_eq_iff hb
    refine ⟨htie, ?_⟩
    intro va vb hva hvb
    have hwfA := ha.wellformed hva
    have hwfB := hb.wellformed hvb
    refine ⟨?_, upgradeCompare_lt_iff hwfA hwfB hva hvb, ?_⟩
    · rw [OrientedCmp.gt_iff_lt, SemVer.compare_eq_lt_iff hwfB hwfA]
    · intro hrender
      cases hcompare : a.upgradeCompare b with
      | lt => exact .inl rfl
      | eq => exact absurd (htie.1 hcompare).2 hrender
      | gt => exact .inr (OrientedCmp.gt_iff_lt.1 hcompare)

namespace Sample

/-- A release with build identifiers. -/
def built : Version := .paired (.ofTag "v1.0.0+build.7") ⟨"5e"⟩

/-- The release in two numbers. -/
def short : Version := .named (.ofTag "v1.0")

/-- The release in two numbers, together with its revision. -/
def shortPaired : Version := .paired (.ofTag "v1.0") ⟨"5e"⟩

/-- The release in three numbers. -/
def full : Version := .named (.ofTag "v1.0.0")

/-- The ninth candidate for the release, which comes after the eleventh as a text. -/
def ninth : Version := .paired (.ofTag "v1.0.0-rc.9") ⟨"1b8"⟩

/-- The eleventh candidate for the release. -/
def eleventh : Version := .paired (.ofTag "v1.0.0-rc.11") ⟨"436f39d"⟩

end Sample

open Sample in
theorem upgradeCompare_laws_sample :
  (built.NamedByTag ∧ short.NamedByTag ∧ shortPaired.NamedByTag ∧ full.NamedByTag ∧
      ninth.NamedByTag ∧ eleventh.NamedByTag) ∧
    built.upgradeCompare short = .lt ∧ short.upgradeCompare full = .lt ∧
    built.upgradeCompare full = .lt ∧
    short.upgradeCompare shortPaired = .eq ∧ shortPaired.upgradeCompare full = .lt ∧
    built.upgradeCompare shortPaired = .lt ∧
    full.render ≠ short.render ∧
    (full.upgradeCompare short = .lt ∨ short.upgradeCompare full = .lt) ∧
    eleventh.upgradeCompare ninth = .lt
  := by
  have hbuilt : built.NamedByTag := namedByTag_of_ref? rfl
  have hshort : short.NamedByTag := namedByTag_of_ref? rfl
  have hpaired : shortPaired.NamedByTag := namedByTag_of_ref? rfl
  have hfull : full.NamedByTag := namedByTag_of_ref? rfl
  have hninth : ninth.NamedByTag := namedByTag_of_ref? rfl
  have heleventh : eleventh.NamedByTag := namedByTag_of_ref? rfl
  have hversionBuilt : built.semver? = some ⟨1, 0, 0, [], ["build", "7"]⟩ := by decide
  have hversionShort : short.semver? = some ⟨1, 0, 0, [], []⟩ := by decide
  have hversionFull : full.semver? = some ⟨1, 0, 0, [], []⟩ := by decide
  have hversionNinth : ninth.semver? = some ⟨1, 0, 0, ["rc", "9"], []⟩ := by decide
  have hversionEleventh : eleventh.semver? = some ⟨1, 0, 0, ["rc", "11"], []⟩ := by decide
  have hfirst : built.upgradeCompare short = .lt := by
    obtain ⟨-, -, -, -, hnamed⟩ := upgradeCompare_laws built short full
    obtain ⟨-, hlt, -⟩ := (hnamed hbuilt hshort).2 _ _ hversionBuilt hversionShort
    exact hlt.2 (.inl (.build rfl rfl .nil))
  have hsecond : short.upgradeCompare full = .lt := by
    obtain ⟨-, -, -, -, hnamed⟩ := upgradeCompare_laws short full built
    obtain ⟨-, hlt, -⟩ := (hnamed hshort hfull).2 _ _ hversionShort hversionFull
    exact hlt.2 (.inr ⟨rfl, by decide⟩)
  have hlast : eleventh.upgradeCompare ninth = .lt := by
    obtain ⟨-, -, -, -, hnamed⟩ := upgradeCompare_laws eleventh ninth built
    obtain ⟨-, hlt, -⟩ := (hnamed heleventh hninth).2 _ _ hversionEleventh hversionNinth
    exact hlt.2 <| .inl <|
      .pre rfl (by decide) (.cons (.rel (.value (by decide) (by decide) (by decide))))
  have hne : full.render ≠ short.render := by decide
  obtain ⟨-, hchain, -⟩ := upgradeCompare_laws built short full
  obtain ⟨-, -, htieLeft, -, hpair⟩ := upgradeCompare_laws short shortPaired full
  obtain ⟨-, -, -, htieRight, -⟩ := upgradeCompare_laws built short shortPaired
  obtain ⟨-, -, -, -, hnamed⟩ := upgradeCompare_laws full short built
  obtain ⟨-, -, hstrict⟩ := (hnamed hfull hshort).2 _ _ hversionFull hversionShort
  have htie := (hpair hshort hpaired).1.2 ⟨rfl, rfl⟩
  exact ⟨⟨hbuilt, hshort, hpaired, hfull, hninth, heleventh⟩, hfirst, hsecond,
    hchain .lt hfirst hsecond, htie, (htieLeft htie).symm.trans hsecond,
    (htieRight htie).trans hfirst, hne, hstrict hne, hlast⟩

end DepLock.Version
