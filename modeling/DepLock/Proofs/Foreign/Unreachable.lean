import DepLock.Proofs.Foreign.Consistent
import DepLock.Proofs.Foreign.Consolidation

/-!
# Entries whose versions cannot be listed

What is locked and what is declared for an entry depends on the source manager only through the list
of versions of the entry's own project. So when some of these lists cannot be had, the other projects
are converted as if all could, and the project of such a list is locked to its hint as it stands and
gets no constraint (`Conversion.converts_unlisted`).
-/

namespace DepLock

/-- A source manager that fails to list the versions of some projects. -/
def SourceManager.failing (sm : SourceManager) (fault? : ProjectId → Option SourceError) :
    SourceManager :=
  { sm with
    listVersions := fun id => match fault? id with
      | some fault => .error fault
      | none => sm.listVersions id }

namespace SourceManager

variable {sm sm' : SourceManager} {id : ProjectId}

theorem listVersions_failing {fault? : ProjectId → Option SourceError} (h : fault? id = none) :
  (sm.failing fault?).listVersions id = sm.listVersions id
  := by
  simp only [failing, h]

/-! ### One list of versions -/

theorem inferConstraint_congr (h : sm.listVersions id = sm'.listVersions id) (hint : String) :
  sm.inferConstraint hint id = sm'.inferConstraint hint id
  := by
  rw [inferConstraint, inferConstraint, h]

theorem tagNamed?_congr (h : sm.listVersions id = sm'.listVersions id) (name : String) :
  sm.tagNamed? id name = sm'.tagNamed? id name
  := by
  rw [tagNamed?, tagNamed?, h]

theorem versionAt_congr (h : sm.listVersions id = sm'.listVersions id)
    (constraint : Option Constraint) (r : Revision) :
  sm.versionAt id constraint r = sm'.versionAt id constraint r
  := by
  rw [versionAt, versionAt, h]

end SourceManager

namespace Conversion

variable {sm sm' : SourceManager} {fromLock : Bool} {root : ProjectRoot} {e : ForeignEntry}
  {c : Conversion} {fault : SourceError}

theorem askedConstraint_congr
    (h : sm.listVersions (e.projectId root) = sm'.listVersions (e.projectId root)) :
  askedConstraint sm (e.projectId root) e = askedConstraint sm' (e.projectId root) e
  := by
  rw [askedConstraint, askedConstraint, SourceManager.inferConstraint_congr h]

theorem lockedVersion?_congr
    (h : sm.listVersions (e.projectId root) = sm'.listVersions (e.projectId root)) :
  lockedVersion? sm root e = lockedVersion? sm' root e
  := by
  simp only [lockedVersion?, hintedVersion?, askedConstraint_congr h,
    SourceManager.tagNamed?_congr h, SourceManager.versionAt_congr h]

/-- What is locked for an entry depends on the versions of its project only. -/
theorem entryProject?_congr
    (h : sm.listVersions (e.projectId root) = sm'.listVersions (e.projectId root)) :
  entryProject? sm root e = entryProject? sm' root e
  := by
  rw [entryProject?, entryProject?, lockedVersion?_congr h]

/-- What is declared for an entry depends on the versions of its project only. -/
theorem entryRule?_congr
    (h : sm.listVersions (e.projectId root) = sm'.listVersions (e.projectId root)) :
  entryRule? sm fromLock root e = entryRule? sm' fromLock root e
  := by
  have hconstraint : entryConstraint sm fromLock root e = entryConstraint sm' fromLock root e := by
    rw [entryConstraint, entryConstraint, askedConstraint_congr h, lockedVersion?_congr h]
  rw [entryRule?, entryRule?, hconstraint]

/-! ### No list of versions -/

/-- Without a list every version is asked for. -/
theorem askedConstraint_of_error (h : sm.listVersions (e.projectId root) = .error fault) :
  (askedConstraint sm (e.projectId root) e).1 = .any
  := by
  rw [askedConstraint, SourceManager.inferConstraint, h]
  by_cases hhint : e.constraintHint = ""
  · rw [if_pos hhint]
  · rw [if_neg hhint]

/-- Without a list a hint is taken for a revision. -/
theorem lockedVersion?_of_error (h : sm.listVersions (e.projectId root) = .error fault) :
  lockedVersion? sm root e = if e.lockHint = "" then none else some (.bare ⟨e.lockHint⟩)
  := by
  have htag : sm.tagNamed? (e.projectId root) e.lockHint = none := by
    rw [SourceManager.tagNamed?, h]
  simp only [lockedVersion?, hintedVersion?, askedConstraint_of_error h, htag,
    SourceManager.versionAt, h]
  split
  · rfl
  · rfl

/-- Without a list an entry is locked to its hint as it stands. -/
theorem entryProject?_of_error (h : sm.listVersions (e.projectId root) = .error fault) :
  entryProject? sm root e
    = if e.lockHint = "" then none else some (.of (e.projectId root) (.bare ⟨e.lockHint⟩) [])
  := by
  rw [entryProject?, lockedVersion?_of_error h]
  split
  · rfl
  · rfl

/-- Without a list nothing is declared for an entry but its source. -/
theorem entryRule?_of_error (h : sm.listVersions (e.projectId root) = .error fault) :
  entryRule? sm fromLock root e = (e.projectId root).source.map fun s => ⟨.any, some s⟩
  := by
  have hany : entryConstraint sm fromLock root e = .any := by
    rw [entryConstraint, askedConstraint_of_error h, lockedVersion?_of_error h]
    -- a bare revision implies no constraint
    cases fromLock <;> by_cases hhint : e.lockHint = "" <;>
      simp [declaredConstraint, Constraint.ofVersion?, Version.ref?, Constraint.isAny,
        Constraint.isPin, hhint]
  rw [entryRule?, hany, ProjectRule.withSource, e.nonEmptySource_projectId root]
  cases (e.projectId root).source with
  | none => rfl
  | some s => rfl

/-! ### All entries -/

/-- What an entry does to the lock concerns its own root. -/
theorem get?_lock_addEntry (own : ProjectRoot) :
  (c.addEntry sm fromLock own e).1.lock.get? root
    = (if own = root then entryProject? sm root e else none).or (c.lock.get? root)
  := by
  rw [lock_addEntry]
  cases hproject : entryProject? sm own e with
  | none =>
    by_cases hroot : own = root
    · rw [if_pos hroot, ← hroot, hproject]
      rfl
    · rw [if_neg hroot]
      rfl
  | some p =>
    obtain ⟨hown, -⟩ := of_entryProject? hproject
    rw [Option.map_some, Option.getD_some, Lock.get?_upsert, hown]
    by_cases hroot : own = root
    · rw [if_pos hroot, if_pos hroot, ← hroot, hproject]
      rfl
    · rw [if_neg hroot, if_neg hroot]
      rfl

/-- What an entry does to the constraints concerns its own root. -/
theorem get?_constraints_addEntry (own : ProjectRoot) :
  (c.addEntry sm fromLock own e).1.manifest.constraints.get? root
    = (if own = root then entryRule? sm fromLock root e else none).or
      (c.manifest.constraints.get? root)
  := by
  rw [constraints_addEntry]
  cases hrule : entryRule? sm fromLock own e with
  | none =>
    by_cases hroot : own = root
    · rw [if_pos hroot, ← hroot, hrule]
      rfl
    · rw [if_neg hroot]
      rfl
  | some rule =>
    rw [Option.map_some, Option.getD_some, SortedMap.get?_insert]
    by_cases hroot : own = root
    · rw [if_pos hroot, if_pos hroot.symm, ← hroot, hrule]
      rfl
    · rw [if_neg hroot, if_neg (Ne.symm hroot)]
      rfl

/-- What a conversion has for a root is what the entry of the root brings, or else what was there, if
that holds of every single entry. -/
theorem read_addProjects {α : Type} (read : Conversion → Option α)
    (brings : ForeignEntry → Option α)
    (hstep : ∀ own e c, read (c.addEntry sm fromLock own e).1
      = (if own = root then brings e else none).or (read c))
    (projects : SortedMap ProjectRoot ForeignEntry) (c : Conversion) :
  read (addProjects sm fromLock projects.toList c).1
    = ((projects.get? root).bind brings).or (read c)
  := by
  obtain ⟨l, hl⟩ := projects
  rw [SortedMap.get?]
  dsimp only
  induction l generalizing c with
  | nil => rfl
  | cons entry l ih =>
    obtain ⟨own, e⟩ := entry
    rw [addProjects_cons, ih _ (List.pairwise_cons.1 hl).2, hstep, List.find?_cons]
    by_cases hroot : own = root
    · -- the root does not come up again
      subst hroot
      have hnone : (l.find? fun e' => compare e'.1 own = .eq) = none := by
        rw [List.find?_eq_none]
        intro e' he' hc
        apply SortedMap.ne_of_mem_tail hl he'
        exact (Std.LawfulEqCmp.eq_of_compare (of_decide_eq_true hc)).symm
      rw [hnone]
      simp
    · have hne : ¬ compare own root = .eq := fun hc => hroot (Std.LawfulEqCmp.eq_of_compare hc)
      simp [hroot, hne]

/-- The locked project of a root is what its entry brings, or else what was locked before. -/
theorem get?_lock_addProjects (projects : SortedMap ProjectRoot ForeignEntry) (c : Conversion)
    (root : ProjectRoot) :
  (addProjects sm fromLock projects.toList c).1.lock.get? root
    = ((projects.get? root).bind (entryProject? sm root)).or (c.lock.get? root)
  := read_addProjects (fun c => c.lock.get? root) _
    (fun own _ _ => get?_lock_addEntry own) projects c

/-- The rule of a root is what its entry brings, or else what was declared before. -/
theorem get?_constraints_addProjects (projects : SortedMap ProjectRoot ForeignEntry)
    (c : Conversion) (root : ProjectRoot) :
  (addProjects sm fromLock projects.toList c).1.manifest.constraints.get? root
    = ((projects.get? root).bind (entryRule? sm fromLock root)).or
      (c.manifest.constraints.get? root)
  := read_addProjects (fun c => c.manifest.constraints.get? root) _
    (fun own _ _ => get?_constraints_addEntry own) projects c

/-- If the roots of all entries are known, they are converted whatever lists of versions cannot be
had. A project whose list cannot be had is locked to the hint of its entry as it stands, or as before
without a hint; it is constrained to any version from the source of its entry, or as before without a
source. The other projects are locked and constrained as if all lists could be had. -/
theorem converts_unlisted (sm : SourceManager) (fault? : ProjectId → Option SourceError)
    (fromLock : Bool) (es : List ForeignEntry) (c : Conversion)
    (hdeduced : ∀ e ∈ es, ∃ root, sm.deduceRoot e.name = .ok root) :
  ∃ projects c' log full fullLog,
    ForeignEntry.consolidate sm.deduceRoot es ∅ = .ok projects ∧
    addEntries (sm.failing fault?) fromLock es c = .ok (c', log) ∧
    addEntries sm fromLock es c = .ok (full, fullLog) ∧
    (∀ root e fault, projects.get? root = some e →
      (sm.failing fault?).listVersions (e.projectId root) = .error fault →
      c'.lock.get? root
        = (if e.lockHint = "" then c.lock.get? root
          else some (.of (e.projectId root) (.bare ⟨e.lockHint⟩) [])) ∧
      c'.manifest.constraints.get? root = match (e.projectId root).source with
        | some source => some ⟨.any, some source⟩
        | none => c.manifest.constraints.get? root) ∧
    ∀ root, (∀ e, projects.get? root = some e → fault? (e.projectId root) = none) →
      c'.lock.get? root = full.lock.get? root ∧
      c'.manifest.constraints.get? root = full.manifest.constraints.get? root
  := by
  obtain ⟨projects, hprojects⟩ := (ForeignEntry.exists_consolidate_iff sm.deduceRoot es ∅).2 hdeduced
  have hadded (sm' : SourceManager) (h : sm'.deduceRoot = sm.deduceRoot) :
      addEntries sm' fromLock es c = .ok (addProjects sm' fromLock projects.toList c) := by
    rw [addEntries, h, hprojects]
  refine ⟨projects, _, _, _, _, hprojects, hadded _ rfl, hadded _ rfl, ?_, ?_⟩
  · intro root e fault he hfault
    rw [get?_lock_addProjects, get?_constraints_addProjects, he, Option.bind_some,
      Option.bind_some, entryProject?_of_error hfault, entryRule?_of_error hfault]
    constructor
    · split
      · rfl
      · rfl
    · cases (e.projectId root).source with
      | none => rfl
      | some source => rfl
  · intro root hlisted
    simp only [get?_lock_addProjects, get?_constraints_addProjects]
    cases he : projects.get? root with
    | none => exact ⟨rfl, rfl⟩
    | some e =>
      have hsame : (sm.failing fault?).listVersions (e.projectId root)
          = sm.listVersions (e.projectId root) := SourceManager.listVersions_failing (hlisted e he)
      rw [Option.bind_some, Option.bind_some, Option.bind_some, Option.bind_some,
        entryProject?_congr hsame, entryRule?_congr hsame]
      exact ⟨rfl, rfl⟩

namespace Sample

/-- Two projects with a tag. -/
def tagged : SourceManager :=
  { projectsOnly with listVersions := fun _ => .ok [.paired (.ofTag "v1.0.0") ⟨"1b8"⟩] }

/-- The versions of one of them cannot be listed. -/
def faultOfParser? (id : ProjectId) : Option SourceError :=
  if id.root = parser then some (.offline id.render) else none

end Sample

/-- A project with a source, a range and a revision whose list of versions cannot be had, beside one
whose list can be had. -/
theorem converts_unlisted_sample :
  ∃ c log full fullLog,
    addEntries (Sample.tagged.failing Sample.faultOfParser?) true [Sample.whole, Sample.other] {}
      = .ok (c, log) ∧
    addEntries Sample.tagged true [Sample.whole, Sample.other] {} = .ok (full, fullLog) ∧
    c.lock.get? Sample.parser
      = some (.of (Sample.whole.projectId Sample.parser) (.bare ⟨"1b8"⟩) []) ∧
    c.manifest.constraints.get? Sample.parser = some ⟨.any, some "w.io/fork"⟩ ∧
    c.lock.get? Sample.printer = full.lock.get? Sample.printer
  := by
  have hdeduced : ∀ e ∈ [Sample.whole, Sample.other],
      ∃ root, Sample.tagged.deduceRoot e.name = .ok root := by
    simp only [List.forall_mem_cons]
    exact ⟨⟨Sample.parser, by decide⟩, ⟨Sample.printer, by decide⟩, nofun⟩
  obtain ⟨projects, c, log, full, fullLog, hprojects, hc, hfull, hunlisted, hlisted⟩ :=
    converts_unlisted Sample.tagged Sample.faultOfParser? true _ {} hdeduced
  have hparser : projects.get? Sample.parser = some Sample.whole := by
    rw [ForeignEntry.get?_of_consolidate hprojects]
    decide
  have hprinter : projects.get? Sample.printer = some Sample.other := by
    rw [ForeignEntry.get?_of_consolidate hprojects]
    decide
  obtain ⟨hlock, hrule⟩ := hunlisted Sample.parser Sample.whole (.offline _) hparser rfl
  refine ⟨c, log, full, fullLog, hc, hfull, hlock, hrule, (hlisted Sample.printer ?_).1⟩
  intro e he
  rw [hprinter, Option.some.injEq] at he
  subst he
  decide

namespace Sample

/-- A project of which no versions can be listed. -/
def unlisted : SourceManager := manager.failing fun id => some (.offline id.render)

/-- What an entry with a source was converted to. -/
def declared : Conversion :=
  (addProjects unlisted false [(fork, { name := "x.io/pkg", source := "w.io/fork" })] {}).1

/-- An entry of the same project without a source. -/
def unsourced : ForeignEntry := { name := "x.io/pkg" }

end Sample

/-- A project whose list of versions cannot be had and whose entry has no source may be constrained
all the same, because it was before. -/
theorem not_undeclared_of_unlisted :
  ¬ ∀ (sm : SourceManager) (es : List ForeignEntry) (fromLock : Bool) (c c' : Conversion) (log : Log)
      (projects : SortedMap ProjectRoot ForeignEntry),
    ForeignEntry.consolidate sm.deduceRoot es ∅ = .ok projects →
    addEntries sm fromLock es c = .ok (c', log) →
    ∀ root e fault, projects.get? root = some e →
      sm.listVersions (e.projectId root) = .error fault →
      ((c'.manifest.constraints.get? root).isSome ↔ (e.projectId root).source.isSome)
  := by
  intro h
  have hprojects : ForeignEntry.consolidate Sample.unlisted.deduceRoot [Sample.unsourced] ∅
      = .ok (SortedMap.insert ∅ Sample.fork Sample.unsourced) := by decide
  have hadded : addEntries Sample.unlisted false [Sample.unsourced] Sample.declared
      = .ok (addProjects Sample.unlisted false
        (SortedMap.insert ∅ Sample.fork Sample.unsourced).toList Sample.declared) := by
    rw [addEntries, hprojects]
  have hiff := h _ _ _ _ _ _ _ hprojects hadded Sample.fork Sample.unsourced (.offline _)
    (by decide) rfl
  revert hiff
  decide

end Conversion
end DepLock
