import DepLock.Proofs.Discovery.Sound

/-!
# Consistent walks

Between its steps a walk is `Consistent`: what is recorded for a project is there for a reason, a
project with recorded paths is either on disk or not, only projects without a usable checkout are
known not to be on disk, and the rules are those that the versions of direct dependencies imply.
`Grows` says what is never lost in a walk.
-/

namespace DepLock

namespace Walk

variable {w : Walk} {root root' : ProjectRoot} {path : String}

@[simp]
theorem data_sync : (w.sync root).data = w.data
  := by
  unfold sync
  split <;> rfl

@[simp]
theorem colors_sync : (w.sync root).colors = w.colors
  := by
  unfold sync
  split <;> rfl

@[simp]
theorem checkouts_sync : (w.sync root).checkouts = w.checkouts
  := by
  unfold sync
  split <;> rfl

@[simp]
theorem synced_sync :
  (w.sync root).synced = if root ∈ w.synced then w.synced else w.synced ++ [root]
  := by
  unfold sync
  split <;> rfl

theorem mem_sync :
  root' ∈ (w.sync root).synced ↔ root' = root ∨ root' ∈ w.synced
  := by
  rw [synced_sync]
  split
  next h =>
    constructor
    · apply Or.inr
    · rintro (rfl | h')
      · apply h
      · apply h'
  next => simp [or_comm]

end Walk

namespace Discovery

variable {d : Discovery} {home root : ProjectRoot} {direct : List String} {path : String}
  {w w' w'' : Walk}

/-! ### Growth -/

/-- What a walk never loses. -/
structure Grows (w w' : Walk) : Prop where
  records : ∀ {root path}, w.data.Records root path → w'.data.Records root path
  notOnDisk : ∀ {root}, w.data.notOnDisk.contains root = true →
    w'.data.notOnDisk.contains root = true
  direct : ∀ {root}, w.data.direct.contains root = true → w'.data.direct.contains root = true
  synced : ∀ {root}, root ∈ w.synced → root ∈ w'.synced
  black : ∀ {path}, w.colors.get? path = some .black → w'.colors.get? path = some .black

namespace Grows

theorem refl (w : Walk) :
  Grows w w
  := ⟨id, id, id, id, id⟩

theorem trans (h : Grows w w') (h' : Grows w' w'') :
  Grows w w''
  where
  records := h'.records ∘ h.records
  notOnDisk := h'.notOnDisk ∘ h.notOnDisk
  direct := h'.direct ∘ h.direct
  synced := h'.synced ∘ h.synced
  black := h'.black ∘ h.black

theorem paint_black (w : Walk) (path : String) :
  Grows w (w.paint path .black)
  where
  records := id
  notOnDisk := id
  direct := id
  synced := id
  black := by
    intro path' hpath'
    rw [Walk.paint, SortedMap.get?_insert]
    split
    next => rfl
    next => apply hpath'

/-- A package without a color may get one, since it was not black. -/
theorem of_new {color : Color} (hnew : w.colors.get? path = none)
    (hcolors : w'.colors = w.colors.insert path color)
    (hsynced : ∀ root ∈ w.synced, root ∈ w'.synced)
    (hrecords : ∀ root path, w.data.Records root path → w'.data.Records root path)
    (hnotOnDisk : ∀ root, w.data.notOnDisk.contains root = true →
      w'.data.notOnDisk.contains root = true)
    (hdirect : w'.data.direct = w.data.direct) :
  Grows w w'
  where
  records := hrecords _ _
  notOnDisk := hnotOnDisk _
  direct := by
    rw [hdirect]
    exact id
  synced := hsynced _
  black := by
    intro path' hpath'
    have hne : path' ≠ path := by
      rintro rfl
      rw [hnew] at hpath'
      cases hpath'
    rw [hcolors, SortedMap.get?_insert_of_ne _ _ hne, hpath']

end Grows

/-! ### Consistency -/

/-- Whether what a walk has found so far fits together. -/
structure Consistent (d : Discovery) (home : ProjectRoot) (direct : List String) (w : Walk) : Prop
    extends d.Sound home direct w where
  justified : ∀ root path, w.data.Records root path →
    path ∈ direct ∨ d.checkoutAt root = none ∨ d.Usable path
  unusable : ∀ root, w.data.notOnDisk.contains root = true → d.checkoutAt root = none
  disjoint : ∀ root, w.data.onDisk.contains root = true →
    w.data.notOnDisk.contains root = false
  located : ∀ root, w.data.dependencies.contains root
    = (w.data.onDisk.contains root || w.data.notOnDisk.contains root)
  directly : ∀ root, w.data.direct.contains root = true →
    w.data.dependencies.contains root = true ∧ ∃ path ∈ direct, d.sources.deduceRoot path = .ok root
  rules : ∀ root, w.data.constraints.get? root
    = if w.data.direct.contains root then (w.data.onDisk.get? root).bind ProjectRule.ofVersion?
      else none
  dispatched : ∀ root ∈ w.synced, ∃ path, d.Uses home direct root path

namespace Consistent

theorem empty (d : Discovery) (home : ProjectRoot) (direct : List String) (log : Log) :
  d.Consistent home direct { log }
  where
  toSound := .empty d home direct log
  justified := by simp [ProjectData.Records]
  unusable := by simp
  disjoint := by simp
  located := by simp
  directly := by simp
  rules := by simp
  dispatched := by simp

/-- Consistency is about the data, once checkouts and synchronizations are right. -/
theorem of_data_eq (h : d.Consistent home direct w)
    (hcheckouts : ∀ root c, w'.checkouts.get? root = some c → d.checkoutAt root = some c)
    (hdata : w'.data = w.data)
    (hsynced : ∀ root ∈ w'.synced, ∃ path, d.Uses home direct root path) :
  d.Consistent home direct w'
  where
  toSound := h.toSound.of_eq hcheckouts (by rw [hdata]) (by rw [hdata])
  justified := by
    rw [hdata]
    apply h.justified
  unusable := by
    rw [hdata]
    apply h.unusable
  disjoint := by
    rw [hdata]
    apply h.disjoint
  located := by
    rw [hdata]
    apply h.located
  directly := by
    rw [hdata]
    apply h.directly
  rules := by
    rw [hdata]
    apply h.rules
  dispatched := hsynced

/-- A project that is not on disk has no rule. -/
theorem no_rule (h : d.Consistent home direct w) (honDisk : w.data.onDisk.contains root = false) :
  w.data.constraints.contains root = false
  := by
  rw [SortedMap.contains_eq_false_iff, h.rules, SortedMap.contains_eq_false_iff.1 honDisk]
  simp

theorem not_onDisk (h : d.Consistent home direct w)
    (hroot : w.data.notOnDisk.contains root = true) :
  w.data.onDisk.contains root = false
  := by
  rw [Bool.eq_false_iff]
  intro honDisk
  rw [h.disjoint root honDisk] at hroot
  cases hroot

/-- A project with a usable checkout is not marked. -/
theorem not_marked (h : d.Consistent home direct w) {c : Checkout}
    (hc : d.checkoutAt root = some c) :
  w.data.notOnDisk.contains root = false
  := by
  rw [Bool.eq_false_iff]
  intro hmarked
  rw [h.unusable root hmarked] at hc
  cases hc

/-- A project without recorded paths is not known to be on disk. -/
theorem not_onDisk_of_new (h : d.Consistent home direct w)
    (hnew : w.data.dependencies.contains root = false) :
  w.data.onDisk.contains root = false
  := by
  rw [h.located, Bool.or_eq_false_iff] at hnew
  apply hnew.1

theorem paint (h : d.Consistent home direct w) (path : String) (color : Color) :
  d.Consistent home direct (w.paint path color)
  := h.of_data_eq h.checkouts rfl h.dispatched

/-- Synchronizing the project of a used package is right. -/
theorem sync (h : d.Consistent home direct w) (hpath : d.Uses home direct root path) :
  d.Consistent home direct (w.sync root)
  := by
  apply h.of_data_eq _ Walk.data_sync
  · intro root' hroot'
    rcases Walk.mem_sync.1 hroot' with rfl | hroot'
    · exact ⟨path, hpath⟩
    · apply h.dispatched root' hroot'
  · rw [Walk.checkouts_sync]
    apply h.checkouts

end Consistent

end Discovery
end DepLock
