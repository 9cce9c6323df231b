import DepLock.Order.SortedSet
import Mathlib.Data.List.Sort
import Mathlib.Tactic.Use

/-!
# Lookup in sorted maps

The entry at a key is the only one of the list with that key, so `get?` is determined by membership
in the list. What each operation does to a map is said by its lookups.
-/

namespace DepLock

namespace SortedMap

open Std

variable {κ α β : Type} [Ord κ]

@[simp]
theorem get?_empty (k : κ) :
  (∅ : SortedMap κ α).get? k = none
  := rfl

@[simp]
theorem contains_empty (k : κ) :
  (∅ : SortedMap κ α).contains k = false
  := rfl

/-- A map has an entry at a key exactly when a value is found there. -/
theorem contains_eq_isSome (m : SortedMap κ α) (k : κ) :
  m.contains k = (m.get? k).isSome
  := by
  rw [get?, Option.isSome_map, List.isSome_find?, contains]

theorem contains_iff {m : SortedMap κ α} {k : κ} :
  m.contains k = true ↔ ∃ v, m.get? k = some v
  := by
  rw [contains_eq_isSome, Option.isSome_iff_exists]

theorem contains_eq_false_iff {m : SortedMap κ α} {k : κ} :
  m.contains k = false ↔ m.get? k = none
  := by
  rw [contains_eq_isSome, Option.isSome_eq_false_iff, Option.isNone_iff_eq_none]

theorem contains_of_get? {m : SortedMap κ α} {k : κ} {v : α} (h : m.get? k = some v) :
  m.contains k = true
  := contains_iff.2 ⟨v, h⟩

variable [LawfulEqOrd κ]

/-! ### Entries -/

theorem ne_of_mem_tail {e e' : κ × α} {l : List (κ × α)} (h : KeysIncrease (e :: l))
    (he : e' ∈ l) :
  e.1 ≠ e'.1
  := by
  intro hk
  have hlt := (List.pairwise_cons.1 h).1 e' he
  rw [hk, compare_self] at hlt
  cases hlt

theorem find?_eq_some_iff_mem {l : List (κ × α)} (h : KeysIncrease l) {k : κ} {v : α} :
  (l.find? fun e => compare e.1 k = .eq).map (·.2) = some v ↔ (k, v) ∈ l
  := by
  induction l with
  | nil => simp
  | cons e l ih =>
    rw [List.find?_cons]
    by_cases hk : e.1 = k
    · subst hk
      have hnot : (e.1, v) ∉ l := fun hv => ne_of_mem_tail h hv rfl
      simp [hnot, Prod.ext_iff, eq_comm]
    · have hne : ¬ compare e.1 k = .eq := fun hc => hk (LawfulEqCmp.eq_of_compare hc)
      simp only [hne, decide_false, ih (List.pairwise_cons.1 h).2, List.mem_cons]
      constructor
      · apply Or.inr
      · rintro (rfl | hv)
        · exact absurd rfl hk
        · apply hv

/-- A value is found at a key exactly when the two are an entry. -/
theorem get?_eq_some_iff {m : SortedMap κ α} {k : κ} {v : α} :
  m.get? k = some v ↔ (k, v) ∈ m.toList
  := find?_eq_some_iff_mem m.increasing

/-- Maps in which every key finds the same have the same entries. -/
theorem mem_toList_congr {m m' : SortedMap κ α} (h : ∀ k, m.get? k = m'.get? k) (e : κ × α) :
  e ∈ m.toList ↔ e ∈ m'.toList
  := by
  obtain ⟨k, v⟩ := e
  rw [← get?_eq_some_iff, ← get?_eq_some_iff, h]

/-! ### Operations -/

theorem get?_erase [DecidableEq κ] (m : SortedMap κ α) (k k' : κ) :
  (m.erase k).get? k' = if k' = k then none else m.get? k'
  := by
  apply Option.ext
  intro v
  have hmem : (k', v) ∈ (m.erase k).toList ↔ (k', v) ∈ m.toList ∧ k' ≠ k := by
    simp [erase, List.mem_filter]
  rw [get?_eq_some_iff, hmem, ← get?_eq_some_iff]
  by_cases h : k' = k
  · simp [h]
  · simp [h]

theorem contains_erase [DecidableEq κ] (m : SortedMap κ α) (k k' : κ) :
  (m.erase k).contains k' = (decide (k' ≠ k) && m.contains k')
  := by
  rw [contains_eq_isSome, contains_eq_isSome, get?_erase]
  by_cases h : k' = k
  · simp [h]
  · simp [h]

theorem get?_filter (p : κ → α → Bool) (m : SortedMap κ α) (k : κ) :
  (m.filter p).get? k = (m.get? k).filter (p k)
  := by
  apply Option.ext
  intro v
  rw [get?_eq_some_iff, Option.filter_eq_some_iff, get?_eq_some_iff]
  simp [filter]

theorem get?_mapValues (f : κ → α → β) (m : SortedMap κ α) (k : κ) :
  (m.mapValues f).get? k = (m.get? k).map (f k)
  := by
  apply Option.ext
  intro w
  rw [get?_eq_some_iff, Option.map_eq_some_iff]
  simp only [mapValues, List.mem_map, get?_eq_some_iff]
  constructor
  · rintro ⟨e, he, h⟩
    cases h
    use e.2, he
  · rintro ⟨v, hv, rfl⟩
    use (k, v), hv

theorem contains_mapValues (f : κ → α → β) (m : SortedMap κ α) (k : κ) :
  (m.mapValues f).contains k = m.contains k
  := by
  rw [contains_eq_isSome, contains_eq_isSome, get?_mapValues, Option.isSome_map]

theorem get?_filterMap (f : κ → α → Option β) (m : SortedMap κ α) (k : κ) :
  (m.filterMap f).get? k = (m.get? k).bind (f k)
  := by
  apply Option.ext
  intro w
  rw [get?_eq_some_iff, Option.bind_eq_some_iff]
  simp only [filterMap, List.mem_filterMap, Option.map_eq_some_iff, get?_eq_some_iff]
  constructor
  · rintro ⟨e, he, u, hu, h⟩
    cases h
    use e.2, he
  · rintro ⟨v, hv, hw⟩
    use (k, v), hv, w, hw

theorem mem_values {m : SortedMap κ α} {v : α} :
  v ∈ m.values ↔ ∃ k, m.get? k = some v
  := by
  simp only [values, List.mem_map, get?_eq_some_iff]
  constructor
  · rintro ⟨e, he, rfl⟩
    use e.1, he
  · rintro ⟨k, hk⟩
    use (k, v), hk

variable [TransOrd κ]

/-- Maps in which every key finds the same are equal. -/
theorem ext_get? {m m' : SortedMap κ α} (h : ∀ k, m.get? k = m'.get? k) :
  m = m'
  := by
  apply SortedMap.ext
  have hirrefl : Std.Irrefl fun a b : κ × α => compare a.1 b.1 = .lt :=
    ⟨fun a ha => by simp [compare_self] at ha⟩
  have hantisymm : Std.Antisymm fun a b : κ × α => compare a.1 b.1 = .lt :=
    ⟨fun a b hab hba => by simp [OrientedCmp.gt_of_lt hab] at hba⟩
  apply List.Pairwise.eq_of_mem_iff m.increasing m'.increasing
  apply mem_toList_congr h

theorem mapValues_congr {m : SortedMap κ α} {f g : κ → α → β}
    (h : ∀ k v, m.get? k = some v → f k v = g k v) :
  m.mapValues f = m.mapValues g
  := by
  apply ext_get?
  intro k
  rw [get?_mapValues, get?_mapValues]
  apply Option.map_congr
  apply h k

theorem mem_insertEntry {k : κ} {v : α} {l : List (κ × α)} (h : KeysIncrease l) {e : κ × α} :
  e ∈ insertEntry k v l ↔ e = (k, v) ∨ (e ∈ l ∧ e.1 ≠ k)
  := by
  induction l with
  | nil => simp [insertEntry]
  | cons a l ih =>
    obtain ⟨ha, hl⟩ := List.pairwise_cons.1 h
    simp only [insertEntry]
    split
    next hk =>
      have hall : ∀ b ∈ a :: l, b.1 ≠ k := by
        rintro b hb rfl
        have hlt : compare b.1 b.1 = .lt := by
          rcases List.mem_cons.1 hb with rfl | hb
          · apply hk
          · exact TransCmp.lt_trans hk (ha b hb)
        rw [compare_self] at hlt
        cases hlt
      grind
    next hk =>
      obtain rfl := LawfulEqCmp.eq_of_compare hk
      have hne : ∀ b ∈ l, a.1 ≠ b.1 := fun b hb => ne_of_mem_tail h hb
      grind
    next hk =>
      have hne : a.1 ≠ k := by
        rintro rfl
        rw [compare_self] at hk
        cases hk
      rw [List.mem_cons, ih hl]
      grind

@[simp]
theorem get?_insert_self (m : SortedMap κ α) (k : κ) (v : α) :
  (m.insert k v).get? k = some v
  := by
  rw [get?_eq_some_iff, toList_insert, mem_insertEntry m.increasing]
  apply Or.inl rfl

theorem get?_insert_of_ne (m : SortedMap κ α) {k k' : κ} (v : α) (h : k' ≠ k) :
  (m.insert k v).get? k' = m.get? k'
  := by
  apply Option.ext
  intro w
  rw [get?_eq_some_iff, get?_eq_some_iff, toList_insert, mem_insertEntry m.increasing]
  simp [h]

theorem get?_insert [DecidableEq κ] (m : SortedMap κ α) (k k' : κ) (v : α) :
  (m.insert k v).get? k' = if k' = k then some v else m.get? k'
  := by
  split
  next h =>
    subst h
    apply get?_insert_self
  next h => apply get?_insert_of_ne m v h

theorem contains_insert [DecidableEq κ] (m : SortedMap κ α) (k k' : κ) (v : α) :
  (m.insert k v).contains k' = (decide (k' = k) || m.contains k')
  := by
  rw [contains_eq_isSome, contains_eq_isSome, get?_insert]
  by_cases h : k' = k
  · simp [h]
  · simp [h]

/-- The value of an altered map at the key that was altered. -/
theorem get?_alter [DecidableEq κ] (m : SortedMap κ α) (k k' : κ) (f : Option α → α) :
  (m.alter k f).get? k' = if k' = k then some (f (m.get? k)) else m.get? k'
  := get?_insert m k k' _

theorem contains_alter [DecidableEq κ] (m : SortedMap κ α) (k k' : κ) (f : Option α → α) :
  (m.alter k f).contains k' = (decide (k' = k) || m.contains k')
  := contains_insert m k k' _

/-- The later of two values that are set at a key stays. -/
theorem insert_insert [DecidableEq κ] (m : SortedMap κ α) (k : κ) (v v' : α) :
  (m.insert k v).insert k v' = m.insert k v'
  := by
  apply ext_get?
  intro k'
  simp only [get?_insert]
  by_cases h : k' = k
  · simp [h]
  · simp [h]

/-- A value that is set at a key where it is changes nothing. -/
theorem insert_eq_self [DecidableEq κ] {m : SortedMap κ α} {k : κ} {v : α}
    (h : m.get? k = some v) :
  m.insert k v = m
  := by
  apply ext_get?
  intro k'
  rw [get?_insert]
  split
  next heq => rw [heq, h]
  next => rfl

/-- Erasing a key without an entry changes nothing. -/
theorem erase_eq_self [DecidableEq κ] {m : SortedMap κ α} {k : κ} (h : m.contains k = false) :
  m.erase k = m
  := by
  apply ext_get?
  intro k'
  rw [get?_erase]
  split
  next heq => rw [heq, contains_eq_false_iff.1 h]
  next => rfl

/-- Of the entries that are set one after the other, the one at a key is found there. -/
theorem get?_foldl_insert [DecidableEq κ] {l : List (κ × α)} (h : KeysIncrease l)
    (m : SortedMap κ α) (k : κ) :
  (l.foldl (fun m e => m.insert e.1 e.2) m).get? k
    = ((l.find? fun e => compare e.1 k = .eq).map (·.2)).or (m.get? k)
  := by
  induction l generalizing m with
  | nil => simp
  | cons e l ih =>
    rw [List.foldl_cons, ih (List.pairwise_cons.1 h).2, List.find?_cons, get?_insert]
    by_cases heq : k = e.1
    · -- the key does not come up again
      have hnone : (l.find? fun e' => compare e'.1 k = .eq) = none := by
        rw [List.find?_eq_none]
        intro e' he' hc
        have hk : e'.1 = k := LawfulEqCmp.eq_of_compare (of_decide_eq_true hc)
        exact ne_of_mem_tail h he' (heq.symm.trans hk.symm)
      rw [hnone]
      simp [heq]
    · have hne : ¬ compare e.1 k = .eq := fun hc => heq (LawfulEqCmp.eq_of_compare hc).symm
      simp [hne, heq]

/-- The entry of an overlaid map is that of the overlay, or else that of the base. -/
theorem get?_overlay [DecidableEq κ] (base upper : SortedMap κ α) (k : κ) :
  (base.overlay upper).get? k = (upper.get? k).or (base.get? k)
  := get?_foldl_insert upper.increasing base k

end SortedMap

namespace SortedSet

variable {κ : Type} [Ord κ] [Std.TransOrd κ] [Std.LawfulEqOrd κ] [DecidableEq κ]

@[simp]
theorem contains_add (s : SortedSet κ) (k k' : κ) :
  (s.add k).contains k' = (decide (k' = k) || s.contains k')
  := SortedMap.contains_insert s k k' ()

theorem add_eq_self {s : SortedSet κ} {k : κ} (h : s.contains k = true) :
  s.add k = s
  := by
  obtain ⟨v, hv⟩ := SortedMap.contains_iff.1 h
  apply SortedMap.insert_eq_self hv

omit [DecidableEq κ] in
/-- Sets with the same elements are equal. -/
theorem ext_contains {s s' : SortedSet κ} (h : ∀ k, s.contains k = s'.contains k) :
  s = s'
  := by
  apply SortedMap.ext_get?
  intro k
  apply Option.ext
  intro v
  have hk := h k
  rw [SortedMap.contains_eq_isSome, SortedMap.contains_eq_isSome] at hk
  cases hs : s.get? k with
  | none => simp_all
  | some u =>
    rw [hs] at hk
    obtain ⟨u', hu'⟩ := Option.isSome_iff_exists.1 hk.symm
    rw [hu']

end SortedSet
end DepLock
