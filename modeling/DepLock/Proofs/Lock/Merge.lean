import DepLock.Proofs.Lock.Record
import DepLock.Proofs.Order.FirstSeen

/-!
# Setting and merging entries

A lock with each root once is determined by its memo, the order of its roots and what is found for
them (`Lock.ext_get?`), so each operation is described by these. Setting an entry replaces the one
with its root where it stands, or goes to the end. Merging sets the entries of the overlay one after
the other; for locks with each root once it is associative, and a lock merged with itself stays as
it is (`Lock.merge_assoc`, `Lock.merge_self`).
-/

namespace DepLock.Lock

variable {l l' : Lock} {p : LockedProject} {ps qs : List LockedProject} {root : ProjectRoot}

/-- The roots of the entries, in order. -/
def roots (l : Lock) : List ProjectRoot := l.projects.map (·.root)

theorem distinct_iff :
  l.Distinct ↔ l.roots.Nodup
  := List.pairwise_map.symm

/-! ### Lookup in locks with each root once -/

/-- In a lock with each root once, an entry is found for its root. -/
theorem get?_eq_some_iff (h : l.Distinct) :
  l.get? root = some p ↔ p ∈ l.projects ∧ p.root = root
  := by
  constructor
  · apply mem_of_get?
  · rintro ⟨hp, rfl⟩
    obtain ⟨q, hq⟩ := Option.isSome_iff_exists.mp (contains_of_mem hp)
    obtain ⟨hmem, hroot⟩ := mem_of_get? hq
    rw [hq, List.inj_on_of_nodup_map (distinct_iff.mp h) hmem hp hroot]

/-- The entries are what is found for the roots. -/
theorem filterMap_get?_roots (h : l.Distinct) :
  l.roots.filterMap l.get? = l.projects
  := by
  rw [roots, List.filterMap_map]
  calc l.projects.filterMap (l.get? ∘ (·.root))
    _ = l.projects.filterMap some := by
      apply List.filterMap_congr
      intro p hp
      apply (get?_eq_some_iff h).mpr ⟨hp, rfl⟩
    _ = l.projects := List.filterMap_some

/-- Locks with the same memo and the same roots in the same order, for which the same is found, are
equal. -/
theorem ext_get? (h : l.Distinct) (h' : l'.Distinct) (hmemo : l.memo = l'.memo)
    (hroots : l.roots = l'.roots) (hget : ∀ root, l.get? root = l'.get? root) :
  l = l'
  := by
  rw [Lock.mk.injEq]
  use hmemo
  rw [← filterMap_get?_roots h, ← filterMap_get?_roots h', hroots, funext hget]

theorem Distinct.sort (h : l.Distinct) :
  l.sort.Distinct
  := ((List.mergeSort_perm _ _).pairwise_iff fun hne => hne.symm).mpr h

/-- Sorting does not change what is found. -/
theorem get?_sort (h : l.Distinct) (root : ProjectRoot) :
  l.sort.get? root = l.get? root
  := by
  apply Option.ext
  intro p
  rw [get?_eq_some_iff h.sort, get?_eq_some_iff h, Lock.sort, List.mem_mergeSort]

/-- In a lock with each root once, the last entry of a root is the first. -/
theorem findRev?_projects (h : l.Distinct) (root : ProjectRoot) :
  l.projects.findRev? (·.root = root) = l.get? root
  := by
  apply Option.ext
  intro p
  let reversed : Lock := { l with projects := l.projects.reverse }
  have hreversed : reversed.Distinct := List.pairwise_reverse.mpr (h.imp Ne.symm)
  have hiff : reversed.get? root = some p ↔ p ∈ l.projects.reverse ∧ p.root = root :=
    get?_eq_some_iff hreversed
  rw [List.findRev?_eq_find?_reverse, get?_eq_some_iff h, ← List.mem_reverse]
  apply hiff

/-! ### Setting entries -/

theorem map_root_upsertProject (p : LockedProject) (qs : List LockedProject) :
  (upsertProject p qs).map (·.root) = addNew (qs.map (·.root)) p.root
  := by
  induction qs with
  | nil => rfl
  | cons q qs ih =>
    rw [upsertProject]
    split
    next hsame => rw [List.map_cons, List.map_cons, hsame, addNew_of_mem List.mem_cons_self]
    next hother => rw [List.map_cons, ih, List.map_cons, addNew_cons_of_ne (Ne.symm hother)]

/-- A root that is set goes last, unless it is there. -/
@[simp]
theorem roots_upsert (l : Lock) (p : LockedProject) :
  (l.upsert p).roots = addNew l.roots p.root
  := map_root_upsertProject p l.projects

/-- Roots go last in the order in which they are set first. -/
theorem roots_foldl_upsert (l : Lock) (ps : List LockedProject) :
  (ps.foldl upsert l).roots = (ps.map (·.root)).foldl addNew l.roots
  := by
  induction ps generalizing l with
  | nil => rfl
  | cons p ps ih => rw [List.foldl_cons, ih, roots_upsert, List.map_cons, List.foldl_cons]

@[simp]
theorem memo_foldl_upsert (l : Lock) (ps : List LockedProject) :
  (ps.foldl upsert l).memo = l.memo
  := by
  induction ps generalizing l with
  | nil => rfl
  | cons p ps ih =>
    rw [List.foldl_cons, ih]
    rfl

theorem distinct_foldl_upsert (h : l.Distinct) (ps : List LockedProject) :
  (ps.foldl upsert l).Distinct
  := by
  rw [distinct_iff, roots_foldl_upsert]
  apply nodup_foldl_addNew (distinct_iff.mp h)

/-- What is set takes the place of the entry with its root, or goes last. -/
theorem upsertProject_eq (h : (qs.map (·.root)).Nodup) (p : LockedProject) :
  upsertProject p qs = qs.map (fun q => if q.root = p.root then p else q)
    ++ if p.root ∈ qs.map (·.root) then [] else [p]
  := by
  induction qs with
  | nil => rfl
  | cons q qs ih =>
    obtain ⟨hq, hqs⟩ := List.nodup_cons.mp h
    rw [upsertProject]
    split
    next hsame =>
      -- no other entry has the root
      have hothers : ∀ r ∈ qs, (if r.root = p.root then p else r) = r := by
        intro r hr
        apply if_neg
        rw [← hsame]
        apply ne_of_mem_of_not_mem (List.mem_map_of_mem hr) hq
      simp [hsame, List.map_congr_left hothers]
    next hother => simp [hother, Ne.symm hother, ih hqs]

/-! ### Merging -/

variable {base overlay : Lock}

theorem distinct_merge (h : base.Distinct) (overlay : Lock) :
  (base.merge overlay).Distinct
  := distinct_foldl_upsert h overlay.projects

theorem roots_merge (base overlay : Lock) :
  (base.merge overlay).roots = overlay.roots.foldl addNew base.roots
  := roots_foldl_upsert base overlay.projects

/-- What is found in a merged lock is what the overlay has, or else what the base has. -/
theorem get?_merge (base : Lock) (h : overlay.Distinct) (root : ProjectRoot) :
  (base.merge overlay).get? root = (overlay.get? root).or (base.get? root)
  := by
  rw [merge, get?_foldl_upsert_eq, findRev?_projects h]

/-- Merging is associative for locks with each root once. -/
theorem merge_assoc {a b c : Lock} (ha : a.Distinct) (hb : b.Distinct) (hc : c.Distinct) :
  (a.merge b).merge c = a.merge (b.merge c)
  := by
  have hab := distinct_merge ha b
  have hbc := distinct_merge hb c
  apply ext_get? (distinct_merge hab c) (distinct_merge ha _)
  · simp [merge]
  · rw [roots_merge, roots_merge, roots_merge, roots_merge, foldl_addNew_foldl_addNew]
  · intro root
    rw [get?_merge _ hc, get?_merge _ hb, get?_merge _ hbc, get?_merge _ hc, Option.or_assoc]

/-- A lock with each root once that is merged with itself stays as it is. -/
theorem merge_self (h : l.Distinct) :
  l.merge l = l
  := by
  apply ext_get? (distinct_merge h l) h
  · simp [merge]
  · rw [roots_merge, foldl_addNew_of_subset (List.Subset.refl _)]
  · intro root
    rw [get?_merge _ h, Option.or_self]

end DepLock.Lock
