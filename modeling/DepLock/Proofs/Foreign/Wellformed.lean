import DepLock.Foreign.Import
import DepLock.Proofs.Order.SortedMap
import DepLock.Proofs.Source.Wellformed

/-!
# What is taken over from other tools

A manifest that is drafted has well-formed ranges and overrides nothing. The conversion of one entry
keeps that, and keeps the versions in the lock well-formed, so the files of a tool are converted to
such a manifest and such a lock (`ForeignTool.wellformed_of_importFrom`), and so are the files of
all tools together (`wellformed_of_importForeign`).
-/

namespace DepLock

/-- Whether all ranges that a manifest constrains to are well-formed, and it overrides nothing. -/
structure Manifest.Drafted (m : Manifest) : Prop where
  constraints : ∀ root rule, m.constraints.get? root = some rule → rule.constraint.Wellformed
  overrides : m.overrides = ∅

namespace Manifest.Drafted

variable {m m' : Manifest}

theorem empty :
  ({} : Manifest).Drafted
  := ⟨nofun, rfl⟩

theorem insert (h : m.Drafted) (root : ProjectRoot) {rule : ProjectRule}
    (hrule : rule.constraint.Wellformed) :
  { m with constraints := m.constraints.insert root rule }.Drafted
  where
  constraints := by
    intro root' rule' hget
    rw [SortedMap.get?_insert] at hget
    split at hget
    next =>
      cases hget
      apply hrule
    next => apply h.constraints root' rule' hget
  overrides := h.overrides

theorem merge (h : m.Drafted) (h' : m'.Drafted) :
  (m.merge m').Drafted
  where
  constraints := by
    intro root rule hget
    rw [Manifest.merge, SortedMap.get?_overlay, Option.or_eq_some_iff] at hget
    rcases hget with hget | ⟨-, hget⟩
    · apply h'.constraints root rule hget
    · apply h.constraints root rule hget
  overrides := by
    rw [Manifest.merge, h.overrides, h'.overrides]
    rfl

end Manifest.Drafted

/-- Whether a manifest is as it is drafted, and the versions in a lock are well-formed. -/
structure PairWellformed (pair : Manifest × Lock) : Prop where
  manifest : pair.1.Drafted
  lock : pair.2.Wellformed

theorem PairWellformed.overlayPair {base : Option (Manifest × Lock)} {overlay : Manifest × Lock}
    (hbase : ∀ pair, base = some pair → PairWellformed pair) (h : PairWellformed overlay) :
  PairWellformed (overlayPair base overlay)
  := by
  cases base with
  | none => apply h
  | some pair =>
    obtain ⟨hmanifest, hlock⟩ := hbase pair rfl
    exact ⟨hmanifest.merge h.manifest, hlock.merge h.lock⟩

/-! ### Entries -/

namespace Conversion

variable {sm : SourceManager} {id : ProjectId} {e : ForeignEntry} {c c' : Conversion}
  {fromLock : Bool} {es : List ForeignEntry} {log : Log}

/-- Whether what the entries so far were converted to is well-formed. -/
abbrev Wellformed (c : Conversion) : Prop := PairWellformed (c.manifest, c.lock)

theorem wellformed_askedConstraint (sm : SourceManager) (id : ProjectId) (e : ForeignEntry) :
  (askedConstraint sm id e).1.Wellformed
  := by
  unfold askedConstraint
  split
  next c hc => apply SourceManager.wellformed_of_inferConstraint hc
  next => exact nofun

theorem wellformed_of_hintedVersion? (hsm : sm.Wellformed) {asked : Constraint} {v : Version}
    (h : hintedVersion? sm id e asked = some v) :
  v.Wellformed
  := by
  unfold hintedVersion? at h
  split at h
  next => cases h
  next =>
    split at h
    next tagged htagged =>
      cases h
      unfold SourceManager.tagNamed? at htagged
      split at htagged
      next => cases htagged
      next versions hversions =>
        apply hsm id versions hversions v (List.mem_of_find?_eq_some htagged)
    next =>
      cases h
      apply SourceManager.wellformed_versionAt hsm

/-- What is declared admits every version, or is no pin and either the constraint that was asked for
or what the locked version implies. -/
theorem declaredConstraint_cases (fromLock : Bool) (asked : Constraint) (locked : Option Version) :
  declaredConstraint fromLock asked locked = .any
    ∨ (declaredConstraint fromLock asked locked).isPin = false
      ∧ (declaredConstraint fromLock asked locked = asked
        ∨ ∃ v, locked = some v
          ∧ Constraint.ofVersion? v = some (declaredConstraint fromLock asked locked))
  := by
  rw [declaredConstraint]
  generalize hchosen : (if fromLock && asked.isAny then
    (locked.bind Constraint.ofVersion?).getD asked else asked) = chosen
  have hcases : chosen = asked ∨ ∃ v, locked = some v ∧ Constraint.ofVersion? v = some chosen := by
    subst hchosen
    split
    next =>
      cases himplied : locked.bind Constraint.ofVersion? with
      | none => apply Or.inl rfl
      | some c => apply Or.inr (Option.bind_eq_some_iff.1 himplied)
    next => apply Or.inl rfl
  split
  next => apply Or.inl rfl
  next hpin => apply Or.inr ⟨by simpa using hpin, hcases⟩

theorem wellformed_declaredConstraint {asked : Constraint} (hasked : asked.Wellformed)
    {locked : Option Version} (hlocked : ∀ v, locked = some v → v.Wellformed) :
  (declaredConstraint fromLock asked locked).Wellformed
  := by
  rcases declaredConstraint_cases fromLock asked locked with hany | ⟨-, hsame | ⟨v, hv, hc⟩⟩
  · rw [hany]
    exact nofun
  · rw [hsame]
    apply hasked
  · apply Constraint.wellformed_of_ofVersion? (hlocked v hv) hc

/-- Adding an entry keeps a conversion well-formed. -/
theorem Wellformed.addEntry (hsm : sm.Wellformed) (h : c.Wellformed) (root : ProjectRoot) :
  (c.addEntry sm fromLock root e).1.Wellformed
  := by
  have hasked := wellformed_askedConstraint sm (e.projectId root) e
  have hhinted : ∀ v, hintedVersion? sm (e.projectId root) e
      (askedConstraint sm (e.projectId root) e).1 = some v → v.Wellformed :=
    fun v => wellformed_of_hintedVersion? hsm
  have hdeclared : (declaredConstraint fromLock (askedConstraint sm (e.projectId root) e).1
      ((hintedVersion? sm (e.projectId root) e (askedConstraint sm (e.projectId root) e).1).filter
        (askedConstraint sm (e.projectId root) e).1.admits)).Wellformed :=
    wellformed_declaredConstraint hasked
      fun v hv => hhinted v (Option.filter_eq_some_iff.1 hv).1
  constructor
  · simp only [Conversion.addEntry]
    split
    next => apply h.manifest
    next => apply h.manifest.insert root hdeclared
  · simp only [Conversion.addEntry]
    split
    next => apply h.lock
    next v hv =>
      split
      next => apply h.lock.upsert (hhinted v hv)
      next => apply h.lock

theorem Wellformed.addProjects (hsm : sm.Wellformed) (h : c.Wellformed)
    (es : List (ProjectRoot × ForeignEntry)) :
  (addProjects sm fromLock es c).1.Wellformed
  := by
  induction es generalizing c with
  | nil => apply h
  | cons e es ih =>
    obtain ⟨root, e⟩ := e
    apply ih (h.addEntry hsm root)

/-- What entries are converted to is well-formed. -/
theorem wellformed_of_addEntries (hsm : sm.Wellformed)
    (h : addEntries sm fromLock es {} = .ok (c, log)) :
  c.Wellformed
  := by
  have hempty : ({} : Conversion).Wellformed := ⟨.empty, .empty⟩
  unfold addEntries at h
  split at h
  next => cases h
  next projects _ =>
    have hadded : (addProjects sm fromLock projects.toList {}).1.Wellformed :=
      hempty.addProjects hsm projects.toList
    rw [Except.ok.injEq] at h
    rw [h] at hadded
    apply hadded

end Conversion

/-! ### Tools -/

section

variable {sm : SourceManager} {files : FileTree} {directory : String} {root : ProjectRoot}
  {tool : ForeignTool} {pair : Manifest × Lock}

/-- Every tool converts entries, and at most has packages ignored besides. -/
theorem ForeignTool.exists_of_importFrom
    (h : (tool.importFrom files sm directory root).result = .ok pair) :
  ∃ fromLock es c log, Conversion.addEntries sm fromLock es {} = .ok (c, log) ∧
    ∃ ignored, pair = ({ c.manifest with ignored }, c.lock)
  := by
  cases tool with
  | glide =>
    change (Glide.importFrom files sm directory root).result = .ok pair at h
    unfold Glide.importFrom Glide.convert at h
    repeat' split at h
    case h_2 c log hadded =>
      cases h
      exact ⟨_, _, c, log, hadded, _, rfl⟩
    all_goals cases h
  | godep =>
    change (Godep.importFrom files sm directory).result = .ok pair at h
    unfold Godep.importFrom Godep.convert at h
    repeat' split at h
    case h_2 c log hadded =>
      cases h
      exact ⟨_, _, c, log, hadded, _, rfl⟩
    all_goals cases h
  | govend =>
    change (Govend.importFrom files sm directory).result = .ok pair at h
    unfold Govend.importFrom Govend.convert at h
    repeat' split at h
    case h_2 c log hadded =>
      cases h
      exact ⟨_, _, c, log, hadded, _, rfl⟩
    all_goals cases h
  | govendor =>
    change (Govendor.importFrom files sm directory root).result = .ok pair at h
    unfold Govendor.importFrom Govendor.convert at h
    repeat' split at h
    case h_2 c log hadded =>
      cases h
      exact ⟨_, _, c, log, hadded, _, rfl⟩
    all_goals cases h

/-- What the files of a tool are converted to is well-formed. -/
theorem ForeignTool.wellformed_of_importFrom (hsm : sm.Wellformed)
    (h : (tool.importFrom files sm directory root).result = .ok pair) :
  PairWellformed pair
  := by
  obtain ⟨fromLock, es, c, log, hadded, ignored, rfl⟩ := exists_of_importFrom h
  have hc := Conversion.wellformed_of_addEntries hsm hadded
  exact ⟨⟨hc.manifest.constraints, hc.manifest.overrides⟩, hc.lock⟩

/-- Each tool's files are laid over what is well-formed already. -/
theorem wellformed_of_importTools (hsm : sm.Wellformed) {tools : List ForeignTool}
    {sofar : Option (Manifest × Lock)} (hsofar : ∀ pair, sofar = some pair → PairWellformed pair)
    (h : (importTools files sm directory root tools sofar).result = .ok (some pair)) :
  PairWellformed pair
  := by
  induction tools generalizing sofar with
  | nil =>
    apply hsofar pair
    rw [importTools] at h
    exact Except.ok.inj h
  | cons tool tools ih =>
    rw [importTools] at h
    simp only at h
    split at h
    next => cases h
    next overlay hoverlay =>
      apply ih _ h
      rintro _ ⟨⟩
      apply PairWellformed.overlayPair hsofar
      apply ForeignTool.wellformed_of_importFrom hsm hoverlay

/-- What the files of all tools are converted to is well-formed. -/
theorem wellformed_of_importForeign (hsm : sm.Wellformed) {enabled : List String}
    (h : (importForeign files sm enabled directory root).result = .ok (some pair)) :
  PairWellformed pair
  := by
  apply wellformed_of_importTools hsm _ h
  rintro _ ⟨⟩

end

end DepLock
