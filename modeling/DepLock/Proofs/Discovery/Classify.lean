import DepLock.Proofs.Discovery.Consistent

/-!
# Direct imports

Classifying a direct import records it under its project and notes the project as imported directly;
a project that comes up for the first time is looked up in the workspace. After all direct imports
are classified the walk is consistent, each of them is `Classified`, and no package has a color.
-/

namespace DepLock.Discovery

variable {d : Discovery} {home root : ProjectRoot} {direct : List String} {path : String}
  {w w' : Walk}

/-- Where a direct import finds its project: it is known from another one, or it is looked up in the
workspace, which knows its version or does not. -/
inductive Locates (d : Discovery) (w : Walk) (root : ProjectRoot) (w' : Walk) : Prop where
  | known : w.data.dependencies.contains root = true →
      w'.data.onDisk = w.data.onDisk → w'.data.notOnDisk = w.data.notOnDisk →
      w'.data.constraints = w.data.constraints → Locates d w root w'
  | resolved {v : Version} : w.data.dependencies.contains root = false →
      d.workspace.version root = .resolved v →
      w'.data.onDisk = w.data.onDisk.insert root v → w'.data.notOnDisk = w.data.notOnDisk →
      w'.data.constraints = (ProjectRule.ofVersion? v).elim w.data.constraints
        (w.data.constraints.insert root) → Locates d w root w'
  | unresolved : w.data.dependencies.contains root = false →
      (∀ v, d.workspace.version root ≠ .resolved v) →
      w'.data.onDisk = w.data.onDisk → w'.data.notOnDisk = w.data.notOnDisk.add root →
      w'.data.constraints = w.data.constraints → Locates d w root w'

/-- What classifying a direct import does. -/
structure Classifies (d : Discovery) (w : Walk) (path : String) (root : ProjectRoot) (w' : Walk) :
    Prop where
  owned : d.sources.deduceRoot path = .ok root
  dependencies : w'.data.dependencies = (w.data.record root path).dependencies
  direct : w'.data.direct = w.data.direct.add root
  colors : w'.colors = w.colors
  checkouts : w'.checkouts = w.checkouts
  synced : ∀ r, r ∈ w'.synced → r = root ∨ r ∈ w.synced
  synced_mono : ∀ r, r ∈ w.synced → r ∈ w'.synced
  located : d.Locates w root w'

/-- What looking up a project does. -/
theorem locates_of_classifyRoot (w : Walk) (hnew : w.data.dependencies.contains root = false)
    {v : Walk} (honDisk : v.data.onDisk = w.data.onDisk)
    (hnotOnDisk : v.data.notOnDisk = w.data.notOnDisk)
    (hconstraints : v.data.constraints = w.data.constraints) :
  d.Locates w root (d.classifyRoot v root)
  := by
  unfold classifyRoot
  split
  next version hversion =>
    apply Locates.resolved hnew hversion
    · simp [honDisk]
    · simp [hnotOnDisk]
    · cases hrule : Constraint.ofVersion? version with
      | none => simp [ProjectRule.ofVersion?, hrule, hconstraints]
      | some c => simp [ProjectRule.ofVersion?, hrule, hconstraints]
  next hversion =>
    apply Locates.unresolved hnew (by simp [hversion])
    · simp [Walk.tell, honDisk]
    · simp [Walk.tell, hnotOnDisk]
    · simp [Walk.tell, hconstraints]
  next reason hversion =>
    apply Locates.unresolved hnew (by simp [hversion])
    · simp [Walk.tell, honDisk]
    · simp [Walk.tell, hnotOnDisk]
    · simp [Walk.tell, hconstraints]

/-- Looking up a project touches nothing but where projects are. -/
theorem classifyRoot_frame (d : Discovery) (w : Walk) (root : ProjectRoot) :
  (d.classifyRoot w root).data.dependencies = w.data.dependencies ∧
    (d.classifyRoot w root).data.direct = w.data.direct ∧
    (d.classifyRoot w root).colors = w.colors ∧
    (d.classifyRoot w root).checkouts = w.checkouts ∧ (d.classifyRoot w root).synced = w.synced
  := by
  unfold classifyRoot
  split <;> exact ⟨rfl, rfl, rfl, rfl, rfl⟩

theorem classifies_of_classify (h : d.classify w path = .ok w') :
  ∃ root, d.Classifies w path root w'
  := by
  unfold classify deduce at h
  cases hroot : d.sources.deduceRoot path with
  | error cause =>
    rw [hroot] at h
    cases h
  | ok root =>
    rw [hroot] at h
    use root
    simp only at h
    split at h
    next hknown =>
      cases h
      exact ⟨hroot, rfl, rfl, rfl, rfl, fun _ => .inr, fun _ => id, .known hknown rfl rfl rfl⟩
    next hnew =>
      rw [Bool.not_eq_true] at hnew
      cases h
      obtain ⟨hdependencies, hdirect, hcolors, hcheckouts, hsynced⟩ := d.classifyRoot_frame
        ((Walk.sync { w with data := { w.data with direct := w.data.direct.add root } } root).record
          root path) root
      constructor
      · apply hroot
      · rw [hdependencies]
        simp [Walk.record, ProjectData.record]
      · rw [hdirect]
        simp [Walk.record]
      · rw [hcolors]
        simp [Walk.record]
      · rw [hcheckouts]
        simp [Walk.record]
      · intro r hr
        rw [hsynced] at hr
        apply Walk.mem_sync.1 hr
      · intro r hr
        rw [hsynced]
        change r ∈ (Walk.sync _ root).synced
        rw [Walk.mem_sync]
        apply Or.inr hr
      · apply locates_of_classifyRoot w hnew
        · simp [Walk.record]
        · simp [Walk.record]
        · simp [Walk.record]

/-- Classifying a direct import fails when its project cannot be deduced, and the walk is left as it
was. -/
theorem error_of_classify {f : WalkFailure} (h : d.classify w path = .error f) :
  f.walk = w ∧ ∃ cause, d.sources.deduceRoot path = .error cause ∧
    f.error = .deduceRoot path cause
  := by
  unfold classify deduce at h
  cases hroot : d.sources.deduceRoot path with
  | error cause =>
    rw [hroot] at h
    cases h
    exact ⟨rfl, cause, rfl, rfl⟩
  | ok root =>
    simp only [hroot] at h
    split at h <;> cases h

/-- A consistent walk that has only classified direct imports so far. -/
structure Classifying (d : Discovery) (home : ProjectRoot) (direct : List String) (w : Walk) : Prop
    extends d.Consistent home direct w where
  known : ∀ root, w.data.dependencies.contains root = true → w.data.direct.contains root = true
  uncolored : w.colors = ∅

/-- Whether a direct import is recorded for a project that is noted as imported directly. -/
def Classified (d : Discovery) (w : Walk) (path : String) : Prop :=
  ∃ root, d.sources.deduceRoot path = .ok root ∧ w.data.direct.contains root = true ∧
    w.data.Records root path

theorem Classified.mono (h : d.Classified w path) (hgrows : Grows w w') :
  d.Classified w' path
  := by
  obtain ⟨root, hroot, hdirect, hrecords⟩ := h
  exact ⟨root, hroot, hgrows.direct hdirect, hgrows.records hrecords⟩

namespace Classifies

variable {root' : ProjectRoot} {path' : String}

theorem records_iff (h : d.Classifies w path root w') :
  w'.data.Records root' path' ↔ (root' = root ∧ path' = path) ∨ w.data.Records root' path'
  := by
  rw [ProjectData.records_congr h.dependencies, ProjectData.records_record]

theorem contains_dependencies (h : d.Classifies w path root w') (root' : ProjectRoot) :
  w'.data.dependencies.contains root'
    = (decide (root' = root) || w.data.dependencies.contains root')
  := by
  rw [h.dependencies, ProjectData.contains_dependencies_record]

theorem contains_direct (h : d.Classifies w path root w') (root' : ProjectRoot) :
  w'.data.direct.contains root' = (decide (root' = root) || w.data.direct.contains root')
  := by
  rw [h.direct, SortedSet.contains_add]

theorem classified (h : d.Classifies w path root w') :
  d.Classified w' path
  := by
  use root, h.owned
  rw [h.contains_direct, h.records_iff]
  simp

theorem grows (h : d.Classifies w path root w') :
  Grows w w'
  where
  records hpath := h.records_iff.2 (.inr hpath)
  notOnDisk := by
    intro root' hroot'
    cases h.located with
    | known _ _ hnotOnDisk _ => rw [hnotOnDisk, hroot']
    | resolved _ _ _ hnotOnDisk _ => rw [hnotOnDisk, hroot']
    | unresolved _ _ _ hnotOnDisk _ => simp [hnotOnDisk, hroot']
  direct := by
    intro root' hroot'
    simp [h.contains_direct, hroot']
  synced := by
    intro root' hroot'
    apply h.synced_mono root' hroot'
  black := by
    intro path' hpath'
    rw [h.colors, hpath']

theorem sound (h : d.Classifies w path root w') (hw : d.Sound home direct w)
    (huses : d.Uses home direct root path) :
  d.Sound home direct w'
  := by
  have hcheckouts : ∀ root c, w'.checkouts.get? root = some c → d.checkoutAt root = some c := by
    rw [h.checkouts]
    apply hw.checkouts
  cases h.located with
  | known _ honDisk => apply (hw.record huses).of_eq hcheckouts honDisk h.dependencies
  | resolved _ hversion honDisk =>
    apply ((hw.note hversion).record huses).of_eq hcheckouts honDisk h.dependencies
  | unresolved _ _ honDisk => apply (hw.record huses).of_eq hcheckouts honDisk h.dependencies

/-- Classifying a direct import keeps a walk consistent. -/
theorem consistent (h : d.Classifies w path root w') (hw : d.Classifying home direct w)
    (hpath : path ∈ direct) (hhome : home.contains path = false) :
  d.Consistent home direct w'
  where
  toSound := h.sound hw.toSound ⟨.direct hpath, hhome, h.owned⟩
  justified := by
    intro root' path' hrecords
    rcases h.records_iff.1 hrecords with ⟨rfl, rfl⟩ | hrecords
    · apply Or.inl hpath
    · apply hw.justified root' path' hrecords
  unusable := by
    intro root' hroot'
    cases h.located with
    | known _ _ hnotOnDisk _ =>
      rw [hnotOnDisk] at hroot'
      apply hw.unusable root' hroot'
    | resolved _ _ _ hnotOnDisk _ =>
      rw [hnotOnDisk] at hroot'
      apply hw.unusable root' hroot'
    | unresolved _ hversion _ hnotOnDisk _ =>
      rw [hnotOnDisk, SortedSet.contains_add, Bool.or_eq_true, decide_eq_true_iff] at hroot'
      rcases hroot' with rfl | hroot'
      · apply checkoutAt_eq_none_iff.2 (.inr (.inl hversion))
      · apply hw.unusable root' hroot'
  disjoint := by
    intro root' hroot'
    have hdisjoint := hw.disjoint root'
    have hlocated := hw.located root'
    cases h.located with
    | known _ honDisk hnotOnDisk _ => grind
    | resolved hnew _ honDisk hnotOnDisk _ =>
      rw [honDisk, SortedMap.contains_insert] at hroot'
      grind
    | unresolved hnew _ honDisk hnotOnDisk _ =>
      rw [hnotOnDisk, SortedSet.contains_add]
      grind
  located := by
    intro root'
    have hlocated := hw.located root'
    rw [h.contains_dependencies]
    cases h.located with
    | known hknown honDisk hnotOnDisk _ =>
      rw [honDisk, hnotOnDisk]
      grind
    | resolved _ _ honDisk hnotOnDisk _ =>
      rw [honDisk, hnotOnDisk, SortedMap.contains_insert]
      grind
    | unresolved _ _ honDisk hnotOnDisk _ =>
      rw [honDisk, hnotOnDisk, SortedSet.contains_add]
      grind
  directly := by
    intro root' hroot'
    rw [h.contains_direct, Bool.or_eq_true, decide_eq_true_iff] at hroot'
    rw [h.contains_dependencies]
    rcases hroot' with rfl | hroot'
    · simp only [decide_true, Bool.true_or, true_and]
      exact ⟨path, hpath, h.owned⟩
    · obtain ⟨hdependency, hdirect⟩ := hw.directly root' hroot'
      rw [hdependency, Bool.or_true]
      exact ⟨rfl, hdirect⟩
  rules := by
    intro root'
    have hrules := hw.rules root'
    cases h.located with
    | known hknown honDisk _ hconstraints =>
      -- so far all dependencies are direct ones, so nothing changes
      rw [hconstraints, honDisk, h.direct, SortedSet.add_eq_self (hw.known root hknown), hrules]
    | @resolved version hnew _ honDisk _ hconstraints =>
      have hnone := SortedMap.contains_eq_false_iff.1 (hw.no_rule (hw.not_onDisk_of_new hnew))
      rw [hconstraints, honDisk, h.contains_direct]
      by_cases heq : root' = root
      · subst heq
        cases hrule : ProjectRule.ofVersion? version with
        | none => simp [hnone, hrule]
        | some rule => simp [hrule]
      · cases hrule : ProjectRule.ofVersion? version with
        | none => simp [heq, hrules, SortedMap.get?_insert]
        | some rule => simp [heq, hrules, SortedMap.get?_insert]
    | unresolved hnew _ honDisk _ hconstraints =>
      -- a new project has no rule, and it gets none
      have hnone := SortedMap.contains_eq_false_iff.1 (hw.not_onDisk_of_new hnew)
      rw [hconstraints, honDisk, h.contains_direct, hrules]
      by_cases heq : root' = root
      · subst heq
        simp [hnone]
      · simp [heq]
  dispatched := by
    intro root' hroot'
    rcases h.synced root' hroot' with rfl | hroot'
    · exact ⟨path, .direct hpath, hhome, h.owned⟩
    · apply hw.dispatched root' hroot'

end Classifies

namespace Classifying

theorem empty (d : Discovery) (home : ProjectRoot) (direct : List String) (log : Log) :
  d.Classifying home direct { log }
  where
  toConsistent := .empty d home direct log
  known := by simp
  uncolored := rfl

theorem classify (h : d.Classifying home direct w) (hpath : path ∈ direct)
    (hhome : home.contains path = false) (hw' : d.classify w path = .ok w') :
  d.Classifying home direct w' ∧ Grows w w' ∧ d.Classified w' path
  := by
  obtain ⟨root, hclassifies⟩ := classifies_of_classify hw'
  refine ⟨?_, hclassifies.grows, hclassifies.classified⟩
  constructor
  · apply hclassifies.consistent h hpath hhome
  · intro root' hroot'
    rw [hclassifies.contains_dependencies, Bool.or_eq_true] at hroot'
    rw [hclassifies.contains_direct, Bool.or_eq_true]
    apply hroot'.imp id (h.known root')
  · rw [hclassifies.colors, h.uncolored]

/-- Each of some direct imports is classified in the end, and if that fails the project of one of
them cannot be deduced. -/
theorem classifyAll {paths : List String} (h : d.Classifying home direct w)
    (hpaths : ∀ path ∈ paths, path ∈ direct ∧ home.contains path = false) :
  match d.classifyAll w paths with
  | .ok w' => d.Classifying home direct w' ∧ Grows w w' ∧ ∀ path ∈ paths, d.Classified w' path
  | .error f => ∃ path ∈ paths, ∃ cause, d.sources.deduceRoot path = .error cause ∧
      f.error = .deduceRoot path cause
  := by
  induction paths generalizing w with
  | nil => simp [Discovery.classifyAll, h, Grows.refl]
  | cons path paths ih =>
    obtain ⟨⟨hpath, hhome⟩, hrest⟩ := List.forall_mem_cons.1 hpaths
    rw [Discovery.classifyAll]
    cases hclassify : d.classify w path with
    | error f =>
      obtain ⟨-, hfails⟩ := error_of_classify hclassify
      exact ⟨path, List.mem_cons_self, hfails⟩
    | ok v =>
      obtain ⟨hv, hgrows, hclassified⟩ := h.classify hpath hhome hclassify
      have hall := ih hv hrest
      simp only
      split
      next w' heq =>
        rw [heq] at hall
        obtain ⟨hw', hgrows', hclassified'⟩ := hall
        refine ⟨hw', hgrows.trans hgrows', List.forall_mem_cons.2 ⟨?_, hclassified'⟩⟩
        apply hclassified.mono hgrows'
      next f heq =>
        rw [heq] at hall
        obtain ⟨path', hpath', hfails⟩ := hall
        exact ⟨path', List.mem_cons_of_mem _ hpath', hfails⟩

end Classifying

end DepLock.Discovery
