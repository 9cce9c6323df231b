import DepLock.Proofs.Solve.Selection
import DepLock.Proofs.Source.Revision

/-!
# Which version is selected

Where the lock keeps nothing, a selection without pins takes the foremost of the listed versions
that meet all demands, and fails only if there are none. A selection with pins looks at one version
only, the foremost that is listed at the first pinned revision, and fails if that does not meet all
demands. It thus misses versions at the same revision that would do, and all revisions that are
abbreviated in a pin (`SourceManager.select_pinned_iff`).
-/

namespace DepLock

variable {v : Version} {versions : List Version} {demands : List Demand} {lock : Lock}
  {root : ProjectRoot} {r : Revision}

/-- A lock keeps nothing for a project whose locked version, if any, does not meet the demands. -/
theorem Lock.kept?_eq_none_iff :
  lock.kept? root demands = none
    ↔ ∀ e, lock.get? root = some e → e.version.meets demands = false
  := by
  rw [kept?, Option.filter_eq_none_iff]
  simp

/-- No revision is pinned exactly if no demand is a pin. -/
theorem pinnedRevision?_eq_none_iff :
  pinnedRevision? demands = none ↔ ∀ d ∈ demands, d.constraint.isPin = false
  := by
  rw [pinnedRevision?, List.findSome?_eq_none_iff]
  apply forall₂_congr
  intro d _
  cases d.constraint <;> simp [Constraint.isPin]

namespace Version

/-- Whether a version is at every pinned revision, which may be abbreviated, and meets all other
demands. -/
structure Suits (v : Version) (demands : List Demand) : Prop where
  pins : ∀ d ∈ demands, ∀ r, d.constraint = .revision r → Inference.isAt r v = true
  others : ∀ d ∈ demands, d.constraint.isPin = false → d.constraint.admits v = true

/-- To meet a pin is to have the pinned revision in full. -/
theorem meets_iff_pins :
  v.meets demands = true ↔
    (∀ d ∈ demands, ∀ r, d.constraint = .revision r → v.revision? = some r) ∧
      ∀ d ∈ demands, d.constraint.isPin = false → d.constraint.admits v = true
  := by
  rw [meets_iff]
  constructor
  · intro h
    constructor
    · intro d hd r hr
      have hadmits := h d hd
      rw [hr] at hadmits
      apply of_decide_eq_true hadmits
    · intro d hd _
      apply h d hd
  · rintro ⟨hpins, hothers⟩ d hd
    cases hr : d.constraint with
    | revision r => exact decide_eq_true (hpins d hd r hr)
    | _ =>
      rw [← hr]
      apply hothers d hd
      rw [hr]
      rfl

theorem Suits.of_meets (h : v.meets demands = true) :
  v.Suits demands
  := by
  obtain ⟨hpins, hothers⟩ := meets_iff_pins.1 h
  refine ⟨?_, hothers⟩
  intro d hd r hr
  apply Inference.isAt_of_revision? (hpins d hd r hr)

end Version

namespace Inference

/-- Without a constraint, the version for a revision is the foremost that is listed there, or the
revision alone. -/
theorem matchRevision_none (versions : List Version) (r : Revision) :
  matchRevision versions none r
    = ((Version.sortForUpgrade versions).find? (isAt r)).getD (.bare r)
  := by
  rw [matchRevision, List.head?_filter]
  rfl

end Inference

namespace SourceManager

variable {sm : SourceManager} {id : ProjectId}

/-! ### Without pins -/

/-- A selection without pins fails when the versions cannot be listed. -/
theorem select_of_error {cause : SourceError} (hkept : lock.kept? id.root demands = none)
    (hpin : pinnedRevision? demands = none) (hlist : sm.listVersions id = .error cause) :
  sm.select id demands lock = .error (.listVersions id.root cause)
  := by
  rw [select, hkept, hpin, hlist]

/-- A selection without pins takes the first in the order of preference that meets the demands. -/
theorem select_of_listed (hkept : lock.kept? id.root demands = none)
    (hpin : pinnedRevision? demands = none) (hlist : sm.listVersions id = .ok versions) :
  sm.select id demands lock
    = match (Version.sortForUpgrade versions).find? (·.meets demands) with
      | some v => .ok v
      | none =>
        .error (.noMatchingVersion id.root demands (Version.sortForUpgrade versions))
  := by
  cases hfind : (Version.sortForUpgrade versions).find? (·.meets demands) <;>
    simp only [select, hkept, hpin, hlist, hfind]

/-- A selection without a pin or a locked version that meets the demands succeeds exactly if some
listed version meets them, and takes the foremost of these. Otherwise its error has all demands and
all listed versions in the order of preference. -/
theorem select_unpinned (sm : SourceManager)
    (hpin : ∀ d ∈ demands, d.constraint.isPin = false)
    (hlock : ∀ e, lock.get? id.root = some e → e.version.meets demands = false) :
  (∀ cause, sm.listVersions id = .error cause →
    sm.select id demands lock = .error (.listVersions id.root cause)) ∧
  ∀ versions, sm.listVersions id = .ok versions →
    ((∃ v, sm.select id demands lock = .ok v) ↔ ∃ v ∈ versions, v.meets demands = true) ∧
    (∀ v, sm.select id demands lock = .ok v →
      Version.Foremost versions (fun w => w.meets demands = true) v) ∧
    ∀ e, sm.select id demands lock = .error e →
      ∃ available, e = .noMatchingVersion id.root demands available ∧
        available.Perm versions ∧
        available.Pairwise fun v w => (v.upgradeCompare w).isLE = true
  := by
  have hkept := Lock.kept?_eq_none_iff.2 hlock
  have hnone := pinnedRevision?_eq_none_iff.2 hpin
  constructor
  · intro cause hlist
    apply select_of_error hkept hnone hlist
  · intro versions hlist
    rw [select_of_listed hkept hnone hlist, ← Version.exists_find?_sortForUpgrade_iff]
    cases hfind : (Version.sortForUpgrade versions).find? (·.meets demands) with
    | some v =>
      refine ⟨by simp, ?_, nofun⟩
      rintro _ ⟨⟩
      apply Version.foremost_of_find? hfind
    | none =>
      refine ⟨by simp, nofun, ?_⟩
      rintro _ ⟨⟩
      use Version.sortForUpgrade versions, rfl, Version.perm_sortForUpgrade versions
      apply Version.pairwise_sortForUpgrade

namespace Sample

def project : ProjectId := ⟨⟨"v.io/e", by decide⟩, none⟩

def stable : Version := .paired (.plain "stable") ⟨"436f39d"⟩

def master : Version := .paired (.branch "master" true) ⟨"436f39d"⟩

def develop : Version := .paired (.branch "develop" false) ⟨"cafe"⟩

/-- Versions of which the first two have one revision, the most preferred last. -/
def listing : List Version := [stable, develop, master]

theorem sortForUpgrade_listing :
  Version.sortForUpgrade listing = [master, develop, stable]
  := by
  have hdistinguished : Version.Distinguished listing := by
    unfold Version.Distinguished
    decide
  have hperm : listing.Perm [master, develop, stable] := by decide
  rw [hdistinguished.sortForUpgrade_eq hperm]
  apply List.mergeSort_of_pairwise
  decide

/-- A source manager that lists them for every project. -/
def manager : SourceManager where
  deduceRoot path := .error (.deduction path .unknownHost)
  listVersions _ := .ok listing
  sync _ := .ok ()

/-- A lock with a bare revision of the project. -/
def bareLock : Lock := { projects := [⟨project, .bare ⟨"436f39d"⟩, ["."]⟩] }

/-- A demand for a version that is listed, which is not the most preferred. -/
def onStable : List Demand := [⟨"me.io/app", .plain "stable"⟩]

/-- A demand that no listed version meets. -/
def onMain : List Demand := [⟨"me.io/app", .branch "main"⟩]

theorem not_meets_of_bareLock (h : (Version.bare ⟨"436f39d"⟩).meets demands = false)
    {e : LockedProject} (he : bareLock.get? project.root = some e) :
  e.version.meets demands = false
  := by
  cases he
  apply h

end Sample

theorem select_unpinned_sample :
  (∀ d ∈ Sample.onStable, d.constraint.isPin = false) ∧
    (∀ e, Sample.bareLock.get? Sample.project.root = some e →
      e.version.meets Sample.onStable = false) ∧
    Sample.manager.select Sample.project Sample.onStable Sample.bareLock = .ok Sample.stable ∧
    Version.Foremost Sample.listing (fun w => w.meets Sample.onStable = true) Sample.stable ∧
    ∃ available, Sample.manager.select Sample.project Sample.onMain Sample.bareLock
        = .error (.noMatchingVersion Sample.project.root Sample.onMain available) ∧
      available.Perm Sample.listing
  := by
  have hlist : Sample.manager.listVersions Sample.project = .ok Sample.listing := rfl
  have hpin : ∀ d ∈ Sample.onStable, d.constraint.isPin = false := by decide
  have hpin' : ∀ d ∈ Sample.onMain, d.constraint.isPin = false := by decide
  have hlock : ∀ e, Sample.bareLock.get? Sample.project.root = some e →
      e.version.meets Sample.onStable = false :=
    fun _ => Sample.not_meets_of_bareLock rfl
  have hlock' : ∀ e, Sample.bareLock.get? Sample.project.root = some e →
      e.version.meets Sample.onMain = false :=
    fun _ => Sample.not_meets_of_bareLock rfl
  have hselect : Sample.manager.select Sample.project Sample.onStable Sample.bareLock
      = .ok Sample.stable := by
    rw [select_of_listed rfl rfl hlist, Sample.sortForUpgrade_listing]
    rfl
  have hunmet : ¬ ∃ v ∈ Sample.listing, v.meets Sample.onMain = true := by decide
  obtain ⟨-, hstable⟩ := select_unpinned Sample.manager hpin hlock
  obtain ⟨-, hmain⟩ := select_unpinned Sample.manager hpin' hlock'
  obtain ⟨-, hforemost, -⟩ := hstable _ hlist
  obtain ⟨hsucceeds, -, herror⟩ := hmain _ hlist
  refine ⟨hpin, hlock, hselect, hforemost _ hselect, ?_⟩
  cases hfails : Sample.manager.select Sample.project Sample.onMain Sample.bareLock with
  | ok v => exact absurd (hsucceeds.1 ⟨v, hfails⟩) hunmet
  | error e =>
    obtain ⟨available, rfl, hperm, -⟩ := herror e hfails
    exact ⟨available, rfl, hperm⟩

/-! ### With pins -/

/-- A selection with pins looks at the version for the first pinned revision only. -/
theorem select_of_pinned (hkept : lock.kept? id.root demands = none)
    (hpin : pinnedRevision? demands = some r) (hlist : sm.listVersions id = .ok versions)
    (hfind : (Version.sortForUpgrade versions).find? (Inference.isAt r) = some v) :
  sm.select id demands lock
    = if v.meets demands then .ok v else .error (.noMatchingVersion id.root demands [v])
  := by
  have hversion : sm.versionAt id none r = v := by
    rw [versionAt, hlist]
    simp only [Inference.matchRevision_none, hfind, Option.getD_some]
  rw [select, hkept, hpin]
  simp only [hversion]

/-- Where some listed version suits the demands, a selection with pins finds one that does exactly
if all pins are, in full, the revision of the foremost version listed at the first of them, and all
other demands admit this version. If not, it fails over this version. -/
theorem select_pinned_iff (hpin : pinnedRevision? demands = some r)
    (hlock : ∀ e, lock.get? id.root = some e → e.version.meets demands = false)
    (hlist : sm.listVersions id = .ok versions) (hsuits : ∃ w ∈ versions, w.Suits demands) :
  ∃ v, Version.Foremost versions (fun w => Inference.isAt r w = true) v ∧
    sm.select id demands lock
      = (if v.meets demands then .ok v else .error (.noMatchingVersion id.root demands [v])) ∧
    ((∃ w ∈ versions, w.Suits demands ∧ sm.select id demands lock = .ok w) ↔
      (∀ d ∈ demands, ∀ r', d.constraint = .revision r' → v.revision? = some r') ∧
        ∀ d ∈ demands, d.constraint.isPin = false → d.constraint.admits v = true)
  := by
  obtain ⟨d, hd, hrevision⟩ := exists_of_pinnedRevision? hpin
  obtain ⟨w, hw, hsuitsw⟩ := hsuits
  obtain ⟨v, hfind⟩ := Version.exists_find?_sortForUpgrade_iff.2
    ⟨w, hw, hsuitsw.pins d hd r hrevision⟩
  have hforemost := Version.foremost_of_find? hfind
  have hselect := select_of_pinned (Lock.kept?_eq_none_iff.2 hlock) hpin hlist hfind
  use v, hforemost, hselect
  rw [← Version.meets_iff_pins, hselect]
  constructor
  · rintro ⟨w', -, -, hw'⟩
    by_contra hmeets
    rw [if_neg hmeets] at hw'
    cases hw'
  · intro hmeets
    use v, hforemost.listed, .of_meets hmeets
    rw [if_pos hmeets]

/-- An abbreviated pin names a version that it does not admit. -/
example :
  let v : Version := .paired (.branch "master" true) ⟨"436f39d7a3f0b3c2e9a4b1c7d2e8f9a0b1c2d3e4"⟩
  Inference.isAt ⟨"436f39d"⟩ v = true ∧ (Constraint.revision ⟨"436f39d"⟩).admits v = false
  := by decide

namespace Sample

/-- A pin to the revision at which there are a branch and a tag, and another demand. -/
def pinnedAnd (constraint : Constraint) : List Demand :=
  [⟨"me.io/app", .revision ⟨"436f39d"⟩⟩, ⟨"y.io/b", constraint⟩]

theorem suits_master :
  master.Suits (pinnedAnd (.branch "master"))
  := .of_meets (by decide)

theorem suits_stable :
  stable.Suits (pinnedAnd (.plain "stable"))
  := .of_meets (by decide)

theorem find?_pinned :
  (Version.sortForUpgrade listing).find? (Inference.isAt ⟨"436f39d"⟩) = some master
  := by
  rw [sortForUpgrade_listing]
  rfl

end Sample

/-- The default branch is preferred to the tag at its revision, so that it is selected where it is
asked for. -/
theorem select_pinned_sample :
  pinnedRevision? (Sample.pinnedAnd (.branch "master")) = some ⟨"436f39d"⟩ ∧
    (∀ e, Sample.bareLock.get? Sample.project.root = some e →
      e.version.meets (Sample.pinnedAnd (.branch "master")) = false) ∧
    Sample.manager.listVersions Sample.project = .ok Sample.listing ∧
    Sample.master ∈ Sample.listing ∧
    Sample.master.Suits (Sample.pinnedAnd (.branch "master")) ∧
    ∃ v, Version.Foremost Sample.listing
        (fun w => Inference.isAt ⟨"436f39d"⟩ w = true) v ∧
      Sample.manager.select Sample.project (Sample.pinnedAnd (.branch "master")) Sample.bareLock
        = .ok v
  := by
  have hmem : Sample.master ∈ Sample.listing := by decide
  have hlock : ∀ e, Sample.bareLock.get? Sample.project.root = some e →
      e.version.meets (Sample.pinnedAnd (.branch "master")) = false :=
    fun _ => Sample.not_meets_of_bareLock rfl
  have hpin : pinnedRevision? (Sample.pinnedAnd (.branch "master")) = some ⟨"436f39d"⟩ := rfl
  have hlist : Sample.manager.listVersions Sample.project = .ok Sample.listing := rfl
  have hselect : Sample.manager.select Sample.project (Sample.pinnedAnd (.branch "master"))
      Sample.bareLock = .ok Sample.master := by
    rw [select_of_pinned (Lock.kept?_eq_none_iff.2 hlock) hpin hlist Sample.find?_pinned]
    rfl
  obtain ⟨v, hforemost, heq, -⟩ :=
    select_pinned_iff hpin hlock hlist ⟨Sample.master, hmem, Sample.suits_master⟩
  refine ⟨hpin, hlock, hlist, hmem, Sample.suits_master, v, hforemost, ?_⟩
  rw [hselect] at heq
  split at heq
  · rw [hselect, heq]
  · cases heq

/-- A tag at a pinned revision is not found where the branch at this revision is preferred to it. -/
theorem not_select_of_suits :
  ¬ ∀ (sm : SourceManager) (id : ProjectId) (demands : List Demand) (lock : Lock)
      (versions : List Version), (∃ d ∈ demands, d.constraint.isPin = true) →
    sm.listVersions id = .ok versions →
    (∀ e, lock.get? id.root = some e → e.version.meets demands = false) →
    (∃ w ∈ versions, w.Suits demands) →
      ∃ w ∈ versions, w.Suits demands ∧ sm.select id demands lock = .ok w
  := by
  intro h
  have hmem : Sample.stable ∈ Sample.listing := by decide
  have hkept : Lock.kept? {} Sample.project.root (Sample.pinnedAnd (.plain "stable")) = none := rfl
  have hunmet : Sample.master.meets (Sample.pinnedAnd (.plain "stable")) = false := by
    decide
  obtain ⟨w, -, -, hw⟩ := h Sample.manager Sample.project (Sample.pinnedAnd (.plain "stable")) {} _
    ⟨_, List.mem_cons_self, rfl⟩ rfl (by rintro _ ⟨⟩) ⟨Sample.stable, hmem, Sample.suits_stable⟩
  rw [select_of_pinned hkept rfl rfl Sample.find?_pinned, hunmet] at hw
  cases hw

end SourceManager
end DepLock
