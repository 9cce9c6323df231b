import DepLock.Proofs.Order.SortedList
import DepLock.SemVer.Basic

/-!
# The order of semantic versions

Every comparison of versions and of their identifiers compares some keys one after another, and so
is consistent and transitive.
-/

namespace DepLock

open Std

/-- The comparison by a key is as good as the comparison of keys. -/
theorem transCmp_key {α β : Type} (cmp : β → β → Ordering) [TransCmp cmp] (key : α → β) :
  TransCmp fun a b => cmp (key a) (key b)
  where
  eq_swap {a b} := (OrientedCmp.eq_swap : cmp (key a) (key b) = (cmp (key b) (key a)).swap)
  isLE_trans {a b c} := (TransCmp.isLE_trans :
    (cmp (key a) (key b)).isLE → (cmp (key b) (key c)).isLE → (cmp (key a) (key c)).isLE)

namespace SemVer

theorem compare_true_false :
  Ord.compare true false = .gt
  := rfl

theorem compare_false_true :
  Ord.compare false true = .lt
  := rfl

/-- Identifiers are compared by whether they are numeric, by the length of numeric ones, and as
texts. -/
theorem comparePreId_eq :
  comparePreId = compareLex (compareOn fun id => !isNumeric id)
    (compareLex (compareOn fun id => if isNumeric id then id.length else 0) Ord.compare)
  := by
  funext a b
  rw [comparePreId]
  cases ha : isNumeric a <;> cases hb : isNumeric b <;>
    simp [compareLex, compareOn, ha, hb, compare_true_false, compare_false_true]

instance : TransCmp comparePreId := by
  rw [comparePreId_eq]
  infer_instance

/-- Build identifiers are compared by whether they are numeric, numeric ones by the length and text
of their significant digits and then by length, and others as texts. -/
theorem compareBuildId_eq :
  compareBuildId = compareLex (compareOn fun id => !isNumeric id)
    (compareLex (compareOn fun id => if isNumeric id then (significantDigits id).length else 0)
      (compareLex (compareOn fun id => if isNumeric id then significantDigits id else id)
        (compareOn fun id => if isNumeric id then id.length else 0)))
  := by
  funext a b
  rw [compareBuildId]
  cases ha : isNumeric a <;> cases hb : isNumeric b <;>
    simp [compareLex, compareOn, ha, hb, compare_true_false, compare_false_true]

instance : TransCmp compareBuildId := by
  rw [compareBuildId_eq]
  infer_instance

/-- Pre-releases are compared by whether there is one, and then identifier by identifier. -/
theorem comparePre_eq :
  comparePre = compareLex (compareOn List.isEmpty) (List.compareLex comparePreId)
  := by
  funext a b
  rw [comparePre.eq_def]
  cases a <;> cases b <;> rfl

instance : TransCmp comparePre := by
  rw [comparePre_eq]
  infer_instance

instance : TransOrd SemVer := by
  have := transCmp_key comparePre SemVer.pre
  have := transCmp_key (List.compareLex compareBuildId) SemVer.build
  exact inferInstanceAs (TransCmp (compareLex (compareOn SemVer.major)
    (compareLex (compareOn SemVer.minor) (compareLex (compareOn SemVer.patch)
      (compareLex (fun a b : SemVer => comparePre a.pre b.pre)
        fun a b : SemVer => List.compareLex compareBuildId a.build b.build)))))

end SemVer
end DepLock
