import DepLock.Proofs.SemVer.Order
import DepLock.Version
import Mathlib.Data.List.Pairwise

/-!
# The order of preference for an upgrade

`Version.upgradeCompare` is an order that tells versions apart by class and name. Versions that are
distinguished by these are brought into the same order however they are listed.
-/

namespace DepLock

open Std

namespace Version

variable {v w : Version} {vs vs' : List Version}

theorem render_of_ref? {ref : Ref} (h : v.ref? = some ref) :
  v.render = ref.name
  := by
  cases v <;> cases h <;> rfl

theorem isSome_semver?_iff :
  v.semver?.isSome = true ↔ v.upgradeClass = 0
  := by
  unfold semver? upgradeClass
  cases v.ref? with
  | none => simp
  | some ref =>
    cases ref with
    | branch name isDefault => cases isDefault <;> simp
    | semver tag version => simp
    | plain tag => simp

/-- Versions are compared by class, then semantic versions the other way round, then by name. -/
theorem upgradeCompare_eq :
  upgradeCompare = compareLex (compareOn upgradeClass)
    (compareLex (fun v w => compare w.semver? v.semver?) (compareOn render))
  := by
  funext v w
  simp only [upgradeCompare, compareLex, compareOn]
  cases hclass : compare v.upgradeClass w.upgradeClass with
  | lt => rfl
  | gt => rfl
  | eq =>
    have hiff := (isSome_semver?_iff (v := v)).trans <|
      (LawfulEqCmp.eq_of_compare hclass ▸ isSome_semver?_iff (v := w)).symm
    unfold newestFirst
    cases hv : v.semver? with
    | none =>
      cases hw : w.semver? with
      | none => rfl
      | some version => simp [hv, hw] at hiff
    | some version =>
      cases hw : w.semver? with
      | none => simp [hv, hw] at hiff
      | some version' => rfl

instance : TransCmp upgradeCompare := by
  have : TransCmp fun v w : Version => compare w.semver? v.semver? :=
    transCmp_key (fun a b : Option SemVer => compare b a) semver?
  rw [upgradeCompare_eq]
  infer_instance

/-- Equally preferred versions have the same class and the same name. -/
theorem eq_of_upgradeCompare (h : v.upgradeCompare w = .eq) :
  v.upgradeClass = w.upgradeClass ∧ v.render = w.render
  := by
  rw [upgradeCompare, Ordering.then_eq_eq, Ordering.then_eq_eq] at h
  use LawfulEqCmp.eq_of_compare h.1, LawfulEqCmp.eq_of_compare h.2.2

theorem upgradeCompare_total (v w : Version) :
  ((v.upgradeCompare w).isLE || (w.upgradeCompare v).isLE) = true
  := by
  have hswap : w.upgradeCompare v = (v.upgradeCompare w).swap := OrientedCmp.eq_swap
  rw [hswap]
  cases v.upgradeCompare w <;> rfl

theorem pairwise_sortForUpgrade (vs : List Version) :
  (sortForUpgrade vs).Pairwise fun v w => (v.upgradeCompare w).isLE = true
  := by
  apply List.pairwise_mergeSort _ upgradeCompare_total
  intro u v w huv hvw
  exact TransCmp.isLE_trans huv hvw

theorem perm_sortForUpgrade (vs : List Version) :
  (sortForUpgrade vs).Perm vs
  := List.mergeSort_perm vs _

theorem mem_sortForUpgrade :
  v ∈ sortForUpgrade vs ↔ v ∈ vs
  := (perm_sortForUpgrade vs).mem_iff

/-- Equally preferred versions keep their order. -/
theorem filter_sortForUpgrade {P : Version → Bool}
    (h : ∀ v w, P v = true → P w = true → v.upgradeCompare w = .eq) (vs : List Version) :
  (sortForUpgrade vs).filter P = vs.filter P
  := by
  have hsorted : (vs.filter P).Pairwise fun v w => (v.upgradeCompare w).isLE = true := by
    apply List.pairwise_of_forall_mem_list
    intro v hv w hw
    rw [h v w (List.mem_filter.1 hv).2 (List.mem_filter.1 hw).2]
    rfl
  have hsublist : (vs.filter P).Sublist (sortForUpgrade vs) := by
    apply List.sublist_mergeSort _ upgradeCompare_total hsorted List.filter_sublist
    intro u v w huv hvw
    exact TransCmp.isLE_trans huv hvw
  have hfiltered := hsublist.filter P
  rw [List.filter_filter] at hfiltered
  symm
  apply List.Sublist.eq_of_length
  · simpa using hfiltered
  · exact ((perm_sortForUpgrade vs).filter P).length_eq.symm

/-- Whether a version is one of those listed that have a property, and none of these comes before it
in the order of preference. -/
structure Foremost (vs : List Version) (P : Version → Prop) (v : Version) : Prop where
  listed : v ∈ vs
  holds : P v
  first : ∀ w ∈ vs, P w → w.upgradeCompare v ≠ .lt

/-- What is found first in the order of preference is foremost. -/
theorem foremost_of_find? {P : Version → Bool} (h : (sortForUpgrade vs).find? P = some v) :
  Foremost vs (fun w => P w = true) v
  := by
  obtain ⟨hv, before, after, hsorted, hbefore⟩ := List.find?_eq_some_iff_append.1 h
  have hle := pairwise_sortForUpgrade vs
  rw [hsorted, List.pairwise_append, List.pairwise_cons] at hle
  obtain ⟨-, ⟨hafter, -⟩, -⟩ := hle
  refine ⟨mem_sortForUpgrade.1 (List.mem_of_find?_eq_some h), hv, ?first⟩
  intro w hw hP hlt
  -- what is sorted in front of the version does not have the property
  rw [← mem_sortForUpgrade, hsorted, List.mem_append, List.mem_cons] at hw
  rcases hw with hw | rfl | hw
  · have hnot := hbefore w hw
    rw [hP] at hnot
    cases hnot
  · simp [ReflCmp.compare_self] at hlt
  · have hle := hafter w hw
    rw [OrientedCmp.gt_of_lt hlt] at hle
    cases hle

theorem exists_find?_sortForUpgrade_iff {P : Version → Bool} :
  (∃ v, (sortForUpgrade vs).find? P = some v) ↔ ∃ v ∈ vs, P v = true
  := by
  rw [← Option.isSome_iff_exists, List.find?_isSome]
  simp only [mem_sortForUpgrade]

/-- Whether a version is foremost among those listed that have a property, and of several such that
are equally preferred the one that is listed first. -/
structure First (vs : List Version) (P : Version → Prop) (v : Version) : Prop
    extends Foremost vs P v where
  earliest : ∃ before after, vs = before ++ v :: after ∧
    ∀ w ∈ before, P w → v.upgradeCompare w = .lt

/-- What is found first in the order of preference is the first. -/
theorem first_of_find? {P : Version → Bool} (h : (sortForUpgrade vs).find? P = some v) :
  First vs (fun w => P w = true) v
  := by
  have hforemost := foremost_of_find? h
  refine ⟨hforemost, ?_⟩
  obtain ⟨hv, before, after, hsorted, hbefore⟩ := List.find?_eq_some_iff_append.1 h
  -- among the versions that are preferred like it, the version is the first in both lists
  let tied (w : Version) : Bool := P w && (w.upgradeCompare v).isEq
  have htied : ∀ u w, tied u = true → tied w = true → u.upgradeCompare w = .eq := by
    intro u w hu hw
    simp only [tied, Bool.and_eq_true, Ordering.isEq_iff_eq_eq] at hu hw
    exact TransCmp.eq_trans hu.2 (OrientedCmp.eq_symm hw.2)
  have hfind : (sortForUpgrade vs).find? tied = some v := by
    apply List.find?_eq_some_iff_append.2
    refine ⟨by simp [tied, hv, ReflCmp.compare_self], before, after, hsorted, ?_⟩
    intro w hw
    have hnot := hbefore w hw
    rw [Bool.not_eq_true'] at hnot
    simp [tied, hnot]
  rw [← List.head?_filter, filter_sortForUpgrade htied, List.head?_filter] at hfind
  obtain ⟨-, before, after, hvs, hbefore⟩ := List.find?_eq_some_iff_append.1 hfind
  use before, after, hvs
  intro w hw hP
  have hnotLt := hforemost.first w (by rw [hvs]; exact List.mem_append_left _ hw) hP
  have hnotTied := hbefore w hw
  simp only [tied, hP, Bool.true_and, Bool.not_eq_true'] at hnotTied
  apply OrientedCmp.gt_iff_lt.1
  cases hcompare : w.upgradeCompare v with
  | lt => exact absurd hcompare hnotLt
  | eq => simp [hcompare] at hnotTied
  | gt => rfl

/-- Whether no two versions of a list have both the same class and the same name. -/
def Distinguished (vs : List Version) : Prop :=
  vs.Pairwise fun v w => v.upgradeClass = w.upgradeClass → v.render ≠ w.render

theorem Distinguished.eq_of_mem (h : Distinguished vs) (hv : v ∈ vs) (hw : w ∈ vs)
    (hclass : v.upgradeClass = w.upgradeClass) (hrender : v.render = w.render) :
  v = w
  := by
  have : Std.Symm fun v w : Version => v.upgradeClass = w.upgradeClass → v.render ≠ w.render :=
    ⟨fun v w hvw hclass => (hvw hclass.symm).symm⟩
  by_contra hne
  apply List.Pairwise.forall h hv hw hne hclass hrender

/-- The order of preference of distinguished versions does not depend on how they are listed. -/
theorem Distinguished.sortForUpgrade_eq (h : Distinguished vs) (hperm : vs.Perm vs') :
  sortForUpgrade vs = sortForUpgrade vs'
  := by
  have hsorts : (sortForUpgrade vs).Perm (sortForUpgrade vs') :=
    ((perm_sortForUpgrade vs).trans hperm).trans (perm_sortForUpgrade vs').symm
  apply List.Perm.eq_of_pairwise _ (pairwise_sortForUpgrade vs) (pairwise_sortForUpgrade vs') hsorts
  intro v w hv hw hvw hwv
  obtain ⟨hclass, hrender⟩ := eq_of_upgradeCompare (OrientedCmp.isLE_antisymm hvw hwv)
  apply h.eq_of_mem (mem_sortForUpgrade.1 hv) _ hclass hrender
  apply hperm.mem_iff.2 (mem_sortForUpgrade.1 hw)

end Version
end DepLock
