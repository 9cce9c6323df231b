import DepLock.Manifest.Basic
import DepLock.Proofs.Order.FirstSeen
import DepLock.Proofs.Order.SortedMap

/-!
# Merging manifests

The rules of a merged manifest are those of the overlay, or else those of the base, and its lists
keep what the base has and take up what is new. Merging is associative, and a manifest merged with
itself stays as it is. The lists are without repeats exactly if those of the base are
(`Manifest.merge_declarations`).
-/

namespace DepLock

namespace SortedMap

open Std

variable {κ α : Type} [Ord κ] [LawfulEqOrd κ] [TransOrd κ] [DecidableEq κ]

/-- Overlaying is associative. -/
theorem overlay_assoc (a b c : SortedMap κ α) :
  (a.overlay b).overlay c = a.overlay (b.overlay c)
  := by
  apply ext_get?
  intro k
  rw [get?_overlay, get?_overlay, get?_overlay, get?_overlay, Option.or_assoc]

/-- A map that is overlaid with itself stays as it is. -/
theorem overlay_self (m : SortedMap κ α) :
  m.overlay m = m
  := by
  apply ext_get?
  intro k
  rw [get?_overlay, Option.or_self]

end SortedMap

namespace Manifest

theorem appendNew_eq_foldl (base more : List String) :
  appendNew base more = more.foldl addNew base
  := rfl

theorem merge_assoc (a b c : Manifest) :
  (a.merge b).merge c = a.merge (b.merge c)
  := by
  simp only [merge, appendNew_eq_foldl, SortedMap.overlay_assoc, foldl_addNew_foldl_addNew]

theorem merge_self (m : Manifest) :
  m.merge m = m
  := by
  simp only [merge, appendNew_eq_foldl, SortedMap.overlay_self,
    foldl_addNew_of_subset (List.Subset.refl _)]

/-- Merging keeps the rule of the overlay where it has one, and else that of the base. A list keeps
what the base has, and takes up each element that is not there where the overlay has it first. So it
has each element of both once, in the order in which they are first seen, exactly if the base does
not repeat one. -/
theorem merge_declarations (base overlay : Manifest) :
  (∀ root, (base.merge overlay).constraints.get? root
    = (overlay.constraints.get? root).or (base.constraints.get? root))
  ∧ (∀ root, (base.merge overlay).overrides.get? root
    = (overlay.overrides.get? root).or (base.overrides.get? root))
  ∧ (base.merge overlay).ignored
    = base.ignored ++ (overlay.ignored.removeAll base.ignored).eraseDups
  ∧ (base.merge overlay).required
    = base.required ++ (overlay.required.removeAll base.required).eraseDups
  ∧ ((base.merge overlay).ignored = (base.ignored ++ overlay.ignored).eraseDups
    ↔ base.ignored.Nodup)
  ∧ ((base.merge overlay).required = (base.required ++ overlay.required).eraseDups
    ↔ base.required.Nodup)
  := by
  refine ⟨?_, ?_, ?_, ?_, ?_, ?_⟩
  · apply SortedMap.get?_overlay
  · apply SortedMap.get?_overlay
  · apply foldl_addNew
  · apply foldl_addNew
  · apply foldl_addNew_eq_eraseDups_iff
  · apply foldl_addNew_eq_eraseDups_iff

/-- A path that the base ignores twice is ignored twice in the merged manifest. -/
theorem ignored_merge_repeated :
  (Manifest.merge { ignored := ["x.io/a", "x.io/a"] } { ignored := ["x.io/b"] }).ignored
    ≠ (["x.io/a", "x.io/a"] ++ ["x.io/b"]).eraseDups
  := by
  decide

end Manifest
end DepLock
