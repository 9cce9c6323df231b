import DepLock.Order.SortedList
import Mathlib.Data.List.Sort

/-!
# Elements of sorted lists

Sorting a list without repeats and inserting into a sorted list keep the elements. A list without
repeats that increases is determined by its elements.
-/

namespace DepLock

open Std

variable {α : Type}

theorem mem_dedupAdjacent [DecidableEq α] {a : α} {l : List α} :
  a ∈ dedupAdjacent l ↔ a ∈ l
  := by
  induction l using dedupAdjacent.induct with
  | case1 => rw [dedupAdjacent]
  | case2 b => rw [dedupAdjacent]
  | case3 b l ih =>
    rw [dedupAdjacent, if_pos rfl, ih]
    simp
  | case4 b c l h ih =>
    rw [dedupAdjacent, if_neg h, List.mem_cons, ih, ← List.mem_cons]

variable [Ord α]

@[simp]
theorem mem_sortDedup [DecidableEq α] {a : α} {l : List α} :
  a ∈ sortDedup l ↔ a ∈ l
  := by
  rw [sortDedup, mem_dedupAdjacent, List.mem_mergeSort]

@[simp]
theorem mem_insertSorted [LawfulEqOrd α] {a b : α} {l : List α} :
  a ∈ insertSorted b l ↔ a = b ∨ a ∈ l
  := by
  induction l with
  | nil => simp [insertSorted]
  | cons c l ih =>
    rw [insertSorted]
    split
    next => rw [List.mem_cons]
    next h =>
      obtain rfl := LawfulEqCmp.eq_of_compare h
      simp
    next =>
      rw [List.mem_cons, ih, List.mem_cons]
      exact or_left_comm

/-- A list that increases weakly increases strictly once equal neighbours are one. -/
theorem increasing_dedupAdjacent [DecidableEq α] [TransOrd α] [LawfulEqOrd α] {l : List α}
    (h : l.Pairwise fun a b => orderedLE a b = true) :
  (dedupAdjacent l).Pairwise fun a b => compare a b = .lt
  := by
  induction l using dedupAdjacent.induct with
  | case1 => simp [dedupAdjacent]
  | case2 b => simp [dedupAdjacent]
  | case3 b l ih =>
    rw [dedupAdjacent, if_pos rfl]
    apply ih (List.pairwise_cons.1 h).2
  | case4 b c l hne ih =>
    obtain ⟨hb, hrest⟩ := List.pairwise_cons.1 h
    rw [dedupAdjacent, if_neg hne, List.pairwise_cons]
    refine ⟨?_, ih hrest⟩
    intro a ha
    have hlt : compare b c = .lt := by
      rcases Ordering.isLE_iff_eq_lt_or_eq_eq.1 (hb c List.mem_cons_self) with hlt | heq
      · apply hlt
      · apply absurd (LawfulEqCmp.eq_of_compare heq) hne
    rcases List.mem_cons.1 (mem_dedupAdjacent.1 ha) with rfl | ha
    · apply hlt
    · exact TransCmp.lt_of_lt_of_isLE hlt ((List.pairwise_cons.1 hrest).1 a ha)

/-- Sorting by a key brings the keys into increasing order. -/
theorem pairwise_mergeSort_key [TransOrd α] {β : Type} (key : β → α) (l : List β) :
  (l.mergeSort fun a b => orderedLE (key a) (key b)).Pairwise
    fun a b => orderedLE (key a) (key b) = true
  := by
  apply List.pairwise_mergeSort
  · intro a b c hab hbc
    exact TransCmp.isLE_trans hab hbc
  · intro a b
    have hswap : compare (key b) (key a) = (compare (key a) (key b)).swap := OrientedCmp.eq_swap
    rw [orderedLE, orderedLE, hswap]
    cases compare (key a) (key b) <;> rfl

/-- The elements of a sorted list without repeats increase. -/
theorem increasing_sortDedup [DecidableEq α] [TransOrd α] [LawfulEqOrd α] (l : List α) :
  (sortDedup l).Pairwise fun a b => compare a b = .lt
  := by
  apply increasing_dedupAdjacent
  apply pairwise_mergeSort_key id l

/-- Lists with the same elements are the same once they are sorted and without repeats. -/
theorem sortDedup_congr [DecidableEq α] [TransOrd α] [LawfulEqOrd α] {l l' : List α}
    (h : ∀ a, a ∈ l ↔ a ∈ l') :
  sortDedup l = sortDedup l'
  := by
  have hirrefl : Std.Irrefl fun a b : α => compare a b = .lt :=
    ⟨fun a ha => by simp [compare_self] at ha⟩
  have hantisymm : Std.Antisymm fun a b : α => compare a b = .lt :=
    ⟨fun a b hab hba => by simp [OrientedCmp.gt_of_lt hab] at hba⟩
  apply List.Pairwise.eq_of_mem_iff (increasing_sortDedup l) (increasing_sortDedup l')
  intro a
  rw [mem_sortDedup, mem_sortDedup, h]

/-- Sorting again changes nothing. -/
@[simp]
theorem sortDedup_sortDedup [DecidableEq α] [TransOrd α] [LawfulEqOrd α] (l : List α) :
  sortDedup (sortDedup l) = sortDedup l
  := sortDedup_congr fun _ => mem_sortDedup

theorem insertSorted_ne_nil {a : α} {l : List α} :
  insertSorted a l ≠ []
  := by
  cases l with
  | nil => simp [insertSorted]
  | cons b l =>
    rw [insertSorted]
    split <;> simp

end DepLock
