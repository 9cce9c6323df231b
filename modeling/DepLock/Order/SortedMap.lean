/-!
# Sorted maps

A `SortedMap` is a list of keyed entries whose keys increase strictly. Two such maps with the
same entries are equal, and their entries are listed in the order of the keys.
-/

namespace DepLock

open Std

/-- The first components of `l` increase strictly. -/
abbrev KeysIncrease {κ α : Type} [Ord κ] (l : List (κ × α)) : Prop :=
  l.Pairwise fun a b => compare a.1 b.1 = .lt

/-- A finite map whose entries are listed by strictly increasing key. -/
structure SortedMap (κ α : Type) [Ord κ] where
  toList : List (κ × α)
  increasing : KeysIncrease toList

namespace SortedMap

variable {κ α β : Type} [Ord κ]

instance [DecidableEq κ] [DecidableEq α] : DecidableEq (SortedMap κ α) :=
  fun a b => decidable_of_iff (a.toList = b.toList) (by cases a; cases b; simp)

@[ext]
theorem ext {a b : SortedMap κ α} (h : a.toList = b.toList) :
  a = b
  := by
  cases a
  cases b
  congr

/-- The map without entries. -/
def empty : SortedMap κ α := ⟨[], List.Pairwise.nil⟩

instance : EmptyCollection (SortedMap κ α) := ⟨empty⟩

instance : Inhabited (SortedMap κ α) := ⟨empty⟩

/-- The keys, in increasing order. -/
def keys (m : SortedMap κ α) : List κ := m.toList.map (·.1)

/-- The values, in the order of their keys. -/
def values (m : SortedMap κ α) : List α := m.toList.map (·.2)

/-- The value at a key. -/
def get? (m : SortedMap κ α) (k : κ) : Option α :=
  (m.toList.find? fun e => compare e.1 k = .eq).map (·.2)

/-- Whether there is an entry at a key. -/
def contains (m : SortedMap κ α) (k : κ) : Bool :=
  m.toList.any fun e => compare e.1 k = .eq

/-- The number of entries. -/
def size (m : SortedMap κ α) : Nat := m.toList.length

/-- Whether there are no entries. -/
def isEmpty (m : SortedMap κ α) : Bool := m.toList.isEmpty

/-- The list with the entry at `k` set to `v`: in place if there is one, else before the first
greater key. -/
def insertEntry (k : κ) (v : α) : List (κ × α) → List (κ × α)
  | [] => [(k, v)]
  | e :: l =>
    match compare k e.1 with
    | .lt => (k, v) :: e :: l
    | .eq => (k, v) :: l
    | .gt => e :: insertEntry k v l

theorem mem_of_mem_insertEntry {k : κ} {v : α} {l : List (κ × α)} {e : κ × α}
    (h : e ∈ insertEntry k v l) :
  e = (k, v) ∨ e ∈ l
  := by
  induction l with
  | nil => simpa [insertEntry] using h
  | cons a l ih =>
    simp only [insertEntry] at h
    split at h <;> grind

theorem keysIncrease_insertEntry [TransOrd κ] (k : κ) (v : α) {l : List (κ × α)}
    (h : KeysIncrease l) :
  KeysIncrease (insertEntry k v l)
  := by
  induction l with
  | nil => simp [insertEntry]
  | cons a l ih =>
    obtain ⟨ha, hl⟩ := List.pairwise_cons.1 h
    simp only [insertEntry]
    split
    next hk =>
      refine List.pairwise_cons.2 ⟨fun b hb => ?_, h⟩
      rcases List.mem_cons.1 hb with rfl | hb
      · exact hk
      · exact TransCmp.lt_trans hk (ha b hb)
    next hk =>
      refine List.pairwise_cons.2 ⟨fun b hb => ?_, hl⟩
      exact TransCmp.lt_of_eq_of_lt hk (ha b hb)
    next hk =>
      refine List.pairwise_cons.2 ⟨fun b hb => ?_, ih hl⟩
      rcases mem_of_mem_insertEntry hb with rfl | hb
      · exact OrientedCmp.gt_iff_lt.1 hk
      · exact ha b hb

/-- The map with the value at `k` set to `v`. -/
def insert [TransOrd κ] (m : SortedMap κ α) (k : κ) (v : α) : SortedMap κ α :=
  ⟨insertEntry k v m.toList, keysIncrease_insertEntry k v m.increasing⟩

/-- The map without the entry at `k`. -/
def erase (m : SortedMap κ α) (k : κ) : SortedMap κ α :=
  ⟨m.toList.filter fun e => compare e.1 k ≠ .eq, m.increasing.filter _⟩

/-- The entries whose keys and values satisfy `p`. -/
def filter (p : κ → α → Bool) (m : SortedMap κ α) : SortedMap κ α :=
  ⟨m.toList.filter fun e => p e.1 e.2, m.increasing.filter _⟩

/-- The map with every value replaced by its image. -/
def mapValues (f : κ → α → β) (m : SortedMap κ α) : SortedMap κ β :=
  ⟨m.toList.map fun e => (e.1, f e.1 e.2), by
    simpa [List.pairwise_map] using m.increasing⟩

/-- The images of the values that have one. -/
def filterMap (f : κ → α → Option β) (m : SortedMap κ α) : SortedMap κ β :=
  ⟨m.toList.filterMap fun e => (f e.1 e.2).map (e.1, ·), by
    refine List.Pairwise.filterMap _ (fun a b hab c hc d hd => ?_) m.increasing
    simp only [Option.map_eq_some_iff] at hc hd
    obtain ⟨_, _, rfl⟩ := hc
    obtain ⟨_, _, rfl⟩ := hd
    exact hab⟩

/-- The map whose value at `k` is `f` of the value that was there. -/
def alter [TransOrd κ] (m : SortedMap κ α) (k : κ) (f : Option α → α) : SortedMap κ α :=
  m.insert k (f (m.get? k))

/-- The map with the entries of a list set in the order of the list, so that the last of several
entries at a key stays. -/
def ofList [TransOrd κ] (l : List (κ × α)) : SortedMap κ α :=
  l.foldl (fun m e => m.insert e.1 e.2) empty

/-- The entries of both maps; `overlay` decides where both have one. -/
def overlay [TransOrd κ] (base overlay : SortedMap κ α) : SortedMap κ α :=
  overlay.toList.foldl (fun m e => m.insert e.1 e.2) base

@[simp]
theorem toList_insert [TransOrd κ] (m : SortedMap κ α) (k : κ) (v : α) :
  (m.insert k v).toList = insertEntry k v m.toList
  := rfl

@[simp]
theorem toList_empty :
  (∅ : SortedMap κ α).toList = []
  := rfl

end SortedMap
end DepLock
