import DepLock.Proofs.Foreign.Wellformed
import DepLock.Proofs.Source.Revision

/-!
# Imported rules and locked versions agree

The entries of other tools are put together to one entry for each project, and what is locked and
what is declared for a project comes from its entry alone. A version is locked only if the
constraint that the entry asks for admits it, and what is declared instead of that constraint admits
it too. So the manifest and the lock of a conversion agree (`Conversion.consistent_of_addEntries`).
-/

namespace DepLock

/-- Whether the version is a tag of a given name. -/
def Version.IsTagNamed (v : Version) (name : String) : Prop :=
  (∃ version, v.ref? = some (.semver name version)) ∨ v.ref? = some (.plain name)

/-- Whether a hint means a version of a project: a listed tag, or a version at a revision that the
hint names. -/
def SourceManager.Means (sm : SourceManager) (id : ProjectId) (hint : String) (v : Version) :
    Prop :=
  (∃ versions, sm.listVersions id = .ok versions ∧ v ∈ versions ∧ v.IsTagNamed hint)
    ∨ ∃ r, v.revision? = some r ∧ r.isNamedBy hint = true

theorem Constraint.isAny_iff {c : Constraint} :
  c.isAny = true ↔ c = .any
  := by
  cases c <;> simp [isAny]

/-- The source of an entry's project is not empty. -/
theorem ForeignEntry.nonEmptySource_projectId (e : ForeignEntry) (root : ProjectRoot) :
  ProjectId.nonEmptySource (e.projectId root).source = (e.projectId root).source
  := by
  simp [projectId, ProjectId.withSource, ProjectId.nonEmptySource, Option.filter_filter]

/-! ### Versions that a hint means -/

namespace SourceManager

variable {sm : SourceManager} {id : ProjectId} {hint : String} {v : Version}

theorem means_of_tagNamed? (h : sm.tagNamed? id hint = some v) :
  sm.Means id hint v
  := by
  unfold tagNamed? at h
  split at h
  · cases h
  next versions hversions =>
    apply Or.inl
    use versions, hversions, List.mem_of_find?_eq_some h
    have hname := List.find?_some h
    split at hname
    next tag version href =>
      obtain rfl := of_decide_eq_true hname
      apply Or.inl ⟨version, href⟩
    next tag href =>
      obtain rfl := of_decide_eq_true hname
      apply Or.inr href
    next => cases hname

theorem means_versionAt (sm : SourceManager) (id : ProjectId) (constraint : Option Constraint)
    (hint : String) :
  sm.Means id hint (sm.versionAt id constraint ⟨hint⟩)
  := by
  apply Or.inr
  unfold versionAt
  split
  next versions _ => apply Inference.isAt_matchRevision versions constraint ⟨hint⟩
  next => exact ⟨⟨hint⟩, rfl, by simp [Revision.isNamedBy]⟩

end SourceManager

namespace Conversion

variable {sm : SourceManager} {fromLock : Bool} {root : ProjectRoot} {e : ForeignEntry}
  {c : Conversion} {log : Log}

/-- The hint of an entry means the version that is found for it. -/
theorem means_of_hintedVersion? {id : ProjectId} {asked : Constraint} {v : Version}
    (h : hintedVersion? sm id e asked = some v) :
  sm.Means id e.lockHint v
  := by
  unfold hintedVersion? at h
  split at h
  · cases h
  · split at h
    next tagged htagged =>
      cases h
      apply SourceManager.means_of_tagNamed? htagged
    next =>
      cases h
      apply SourceManager.means_versionAt

/-! ### One entry -/

/-- The version that is locked for an entry: the one that its hint means, if what the entry asks for
admits it. -/
def lockedVersion? (sm : SourceManager) (root : ProjectRoot) (e : ForeignEntry) : Option Version :=
  let id := e.projectId root
  let asked := (askedConstraint sm id e).1
  (hintedVersion? sm id e asked).filter asked.admits

/-- The constraint that is declared for an entry. -/
def entryConstraint (sm : SourceManager) (fromLock : Bool) (root : ProjectRoot)
    (e : ForeignEntry) : Constraint :=
  declaredConstraint fromLock (askedConstraint sm (e.projectId root) e).1
    (lockedVersion? sm root e)

/-- The project that is locked for an entry. -/
def entryProject? (sm : SourceManager) (root : ProjectRoot) (e : ForeignEntry) :
    Option LockedProject :=
  (lockedVersion? sm root e).map fun v => .of (e.projectId root) v []

/-- The rule that is declared for an entry, unless it would say nothing. -/
def entryRule? (sm : SourceManager) (fromLock : Bool) (root : ProjectRoot) (e : ForeignEntry) :
    Option ProjectRule :=
  let declared := entryConstraint sm fromLock root e
  let source := (e.projectId root).source
  if declared.isAny && source.isNone then none else some (.withSource declared source)

/-- An entry sets the locked project of its root, if there is one. -/
theorem lock_addEntry :
  (c.addEntry sm fromLock root e).1.lock
    = ((entryProject? sm root e).map c.lock.upsert).getD c.lock
  := by
  simp only [addEntry]
  split
  next hhinted => simp [entryProject?, lockedVersion?, hhinted]
  next v hhinted =>
    by_cases hadmits : (askedConstraint sm (e.projectId root) e).1.admits v
    · simp [entryProject?, lockedVersion?, hhinted, hadmits, Option.filter]
    · simp [entryProject?, lockedVersion?, hhinted, hadmits, Option.filter]

/-- An entry sets the rule of its root, if there is one. -/
theorem constraints_addEntry :
  (c.addEntry sm fromLock root e).1.manifest.constraints
    = ((entryRule? sm fromLock root e).map (c.manifest.constraints.insert root)).getD
      c.manifest.constraints
  := by
  simp only [addEntry]
  split
  next hnothing =>
    have hrule : entryRule? sm fromLock root e = none := if_pos hnothing
    rw [hrule]
    rfl
  next hsays =>
    have hrule : entryRule? sm fromLock root e
        = some (.withSource (entryConstraint sm fromLock root e) (e.projectId root).source) :=
      if_neg hsays
    rw [hrule]
    rfl

variable {p : LockedProject} {rule : ProjectRule}

/-- A project that is locked for an entry has its id and its version. -/
theorem of_entryProject? (h : entryProject? sm root e = some p) :
  p.root = root ∧ p.id = e.projectId root ∧ lockedVersion? sm root e = some p.version
  := by
  obtain ⟨v, hv, rfl⟩ := Option.map_eq_some_iff.mp h
  exact ⟨rfl, rfl, hv⟩

/-- The hint of an entry means the version that is locked for it. -/
theorem means_lockedVersion? {v : Version} (h : lockedVersion? sm root e = some v) :
  sm.Means (e.projectId root) e.lockHint v
  := by
  obtain ⟨hhinted, -⟩ := Option.filter_eq_some_iff.mp h
  apply means_of_hintedVersion? hhinted

/-- What is declared is no pinned revision. -/
theorem isPin_entryConstraint :
  (entryConstraint sm fromLock root e).isPin = false
  := by
  rcases declaredConstraint_cases fromLock (askedConstraint sm (e.projectId root) e).1
    (lockedVersion? sm root e) with hany | ⟨hpin, -⟩
  · rw [entryConstraint, hany]
    rfl
  · apply hpin

/-- What is declared for an entry admits the version that is locked for it. -/
theorem admits_lockedVersion? {v : Version} (h : lockedVersion? sm root e = some v) :
  (entryConstraint sm fromLock root e).admits v
  := by
  obtain ⟨-, hadmits⟩ := Option.filter_eq_some_iff.mp h
  rcases declaredConstraint_cases fromLock (askedConstraint sm (e.projectId root) e).1
    (lockedVersion? sm root e) with hany | ⟨-, hsame | ⟨v', hv', hc⟩⟩
  · rw [entryConstraint, hany]
    rfl
  · rw [entryConstraint, hsame]
    apply hadmits
  · rw [h, Option.some.injEq] at hv'
    subst hv'
    apply Constraint.admits_of_ofVersion? hc

/-- A rule that is declared says something, and has the source of its project. -/
theorem of_entryRule? (h : entryRule? sm fromLock root e = some rule) :
  rule.constraint = entryConstraint sm fromLock root e ∧ rule.source = (e.projectId root).source
    ∧ (rule.constraint ≠ .any ∨ rule.source ≠ none)
  := by
  simp only [entryRule?] at h
  split at h
  · cases h
  next hsays =>
    cases h
    have hsource := e.nonEmptySource_projectId root
    refine ⟨rfl, hsource, ?_⟩
    rw [Bool.and_eq_true, Constraint.isAny_iff, Option.isNone_iff_eq_none, ← hsource] at hsays
    apply Decidable.not_and_iff_not_or_not.mp hsays

/-! ### All entries -/

variable {l : List (ProjectRoot × ForeignEntry)}

/-- The entries are added one after the other. -/
theorem addProjects_cons :
  (addProjects sm fromLock ((root, e) :: l) c).1
    = (addProjects sm fromLock l (c.addEntry sm fromLock root e).1).1
  := rfl

/-- Every project that is locked after some entries was locked before, or is locked for one of
them. -/
theorem exists_of_mem_addProjects (h : p ∈ (addProjects sm fromLock l c).1.lock.projects) :
  p ∈ c.lock.projects ∨ ∃ root e, (root, e) ∈ l ∧ entryProject? sm root e = some p
  := by
  induction l generalizing c with
  | nil => apply Or.inl h
  | cons entry l ih =>
    obtain ⟨root, e⟩ := entry
    rw [addProjects_cons] at h
    rcases ih h with hmem | ⟨root', e', he', hp⟩
    · rw [lock_addEntry] at hmem
      cases hq : entryProject? sm root e with
      | none =>
        rw [hq] at hmem
        apply Or.inl hmem
      | some q =>
        rw [hq] at hmem
        rcases Lock.mem_of_mem_upsertProject hmem with rfl | hmem
        · exact .inr ⟨root, e, List.mem_cons_self, hq⟩
        · apply Or.inl hmem
    · exact .inr ⟨root', e', List.mem_cons_of_mem _ he', hp⟩

/-- Every rule that is there after some entries was there before, or is declared for one of them. -/
theorem exists_of_get?_addProjects
    (h : (addProjects sm fromLock l c).1.manifest.constraints.get? root = some rule) :
  c.manifest.constraints.get? root = some rule
    ∨ ∃ e, (root, e) ∈ l ∧ entryRule? sm fromLock root e = some rule
  := by
  induction l generalizing c with
  | nil => apply Or.inl h
  | cons entry l ih =>
    obtain ⟨root', e'⟩ := entry
    rw [addProjects_cons] at h
    rcases ih h with hget | ⟨e, he, hrule⟩
    · rw [constraints_addEntry] at hget
      cases hrule' : entryRule? sm fromLock root' e' with
      | none =>
        rw [hrule'] at hget
        apply Or.inl hget
      | some rule' =>
        rw [hrule', Option.map_some, Option.getD_some, SortedMap.get?_insert] at hget
        split at hget
        next hroot =>
          subst hroot
          cases hget
          exact .inr ⟨e', List.mem_cons_self, hrule'⟩
        next => apply Or.inl hget
    · exact .inr ⟨e, List.mem_cons_of_mem _ he, hrule⟩

variable {es : List ForeignEntry}

/-- What is locked and what is declared for a root comes from the one entry of the root. -/
theorem exists_of_addEntries (h : addEntries sm fromLock es {} = .ok (c, log)) :
  ∃ projects, ForeignEntry.consolidate sm.deduceRoot es ∅ = .ok projects
    ∧ (∀ p ∈ c.lock.projects, ∃ e, projects.get? p.root = some e
      ∧ entryProject? sm p.root e = some p)
    ∧ ∀ root rule, c.manifest.constraints.get? root = some rule → ∃ e, projects.get? root = some e
      ∧ entryRule? sm fromLock root e = some rule
  := by
  unfold addEntries at h
  split at h
  · cases h
  next projects hprojects =>
    rw [Except.ok.injEq] at h
    obtain rfl : (addProjects sm fromLock projects.toList {}).1 = c := by rw [h]
    refine ⟨projects, hprojects, ?_, ?_⟩
    · intro p hp
      rcases exists_of_mem_addProjects hp with hnone | ⟨root, e, he, hentry⟩
      · cases hnone
      · obtain ⟨rfl, -⟩ := of_entryProject? hentry
        exact ⟨e, SortedMap.get?_eq_some_iff.mpr he, hentry⟩
    · intro root rule hrule
      rcases exists_of_get?_addProjects hrule with hnone | ⟨e, he, hentry⟩
      · cases hnone
      · exact ⟨e, SortedMap.get?_eq_some_iff.mpr he, hentry⟩

/-- What entries are converted to is consistent: where a root has both, its rule admits its locked
version and has its source; no rule pins a revision or says nothing; and every locked version is
one that the hint of the root's entry means. -/
theorem consistent_of_addEntries (h : addEntries sm fromLock es {} = .ok (c, log)) :
  (∀ root p rule, c.lock.get? root = some p → c.manifest.constraints.get? root = some rule →
    rule.constraint.admits p.version = true ∧ rule.source = p.id.source)
  ∧ (∀ root rule, c.manifest.constraints.get? root = some rule →
    rule.constraint.isPin = false ∧ (rule.constraint ≠ .any ∨ rule.source ≠ none))
  ∧ ∃ projects, ForeignEntry.consolidate sm.deduceRoot es ∅ = .ok projects
    ∧ ∀ p ∈ c.lock.projects, ∃ e, projects.get? p.root = some e
      ∧ sm.Means p.id e.lockHint p.version
  := by
  obtain ⟨projects, hprojects, hlocked, hdeclared⟩ := exists_of_addEntries h
  refine ⟨?_, ?_, projects, hprojects, ?_⟩
  · intro root p rule hp hrule
    obtain ⟨hmem, rfl⟩ := Lock.mem_of_get? hp
    obtain ⟨e, he, hp⟩ := hlocked p hmem
    obtain ⟨e', he', hrule⟩ := hdeclared p.root rule hrule
    rw [he, Option.some.injEq] at he'
    subst he'
    obtain ⟨-, hid, hv⟩ := of_entryProject? hp
    obtain ⟨hconstraint, hsource, -⟩ := of_entryRule? hrule
    rw [hconstraint, hsource, hid]
    exact ⟨admits_lockedVersion? hv, rfl⟩
  · intro root rule hrule
    obtain ⟨e, -, hrule⟩ := hdeclared root rule hrule
    obtain ⟨hconstraint, -, hsays⟩ := of_entryRule? hrule
    refine ⟨?_, hsays⟩
    rw [hconstraint]
    apply isPin_entryConstraint
  · intro p hp
    obtain ⟨e, he, hp⟩ := hlocked p hp
    obtain ⟨-, hid, hv⟩ := of_entryProject? hp
    use e, he
    rw [hid]
    apply means_lockedVersion? hv

/-! ### A fork at a tag before the first version -/

namespace Sample

/-- The root of the only project. -/
def fork : ProjectRoot := .ofString "x.io/pkg"

/-- A project with a branch and a tag. -/
def manager : SourceManager where
  deduceRoot path := if fork.contains path then .ok fork else .error (.deduction path .unknownHost)
  listVersions _ := .ok [.named (.branch "dev" true), .paired (.ofTag "v1.0.0-rc.1") ⟨"1b8"⟩]
  sync _ := .ok ()

/-- Two entries of the project, of which one says where to fetch it from, and one what it is locked
to. -/
def entries : List ForeignEntry := [
  { name := "x.io/pkg/sub", source := "w.io/fork" },
  { name := "x.io/pkg", lockHint := "v1.0.0-rc.1" }]

/-- The project gets a rule and is locked, and the rule admits the version. -/
theorem consistent_entries :
  ∃ c log p rule, addEntries manager true entries {} = .ok (c, log)
    ∧ c.lock.get? fork = some p ∧ c.manifest.constraints.get? fork = some rule
    ∧ rule.constraint.admits p.version = true ∧ rule.source = p.id.source
  := by
  have hlocked : ((addEntries manager true entries {}).toOption.bind
      (·.1.lock.get? fork)).isSome := by decide
  have hdeclared : ((addEntries manager true entries {}).toOption.bind
      (·.1.manifest.constraints.get? fork)).isSome := by decide
  cases h : addEntries manager true entries {} with
  | error e =>
    rw [h] at hlocked
    cases hlocked
  | ok r =>
    obtain ⟨c, log⟩ := r
    rw [h] at hlocked hdeclared
    obtain ⟨p, hp⟩ := Option.isSome_iff_exists.mp hlocked
    obtain ⟨rule, hrule⟩ := Option.isSome_iff_exists.mp hdeclared
    exact ⟨c, log, p, rule, rfl, hp, hrule,
      (consistent_of_addEntries h).1 fork p rule hp hrule⟩

end Sample

end Conversion
end DepLock
