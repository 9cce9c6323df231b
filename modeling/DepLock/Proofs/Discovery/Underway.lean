import DepLock.Proofs.Discovery.Classify
import DepLock.Proofs.Discovery.Entry
import DepLock.Proofs.Discovery.Itinerary

/-!
# Walks underway

In the depth-first part of a walk the grey packages are those that the walk is in, one nested in the
other; colored packages have been dealt with; and black packages, together with all that is followed
from them, are black and lie on no cycle. Such a walk is `Underway`, and a visit keeps it so: it ends
with the package black, or with an error for which the imports give a reason, which is a cycle or a
package whose project cannot be deduced.
-/

namespace DepLock.Discovery

open Relation

variable {d : Discovery} {home root : ProjectRoot} {direct stack paths : List String} {path : String}
  {w w' : Walk} {next : Option (List String)}

/-- Whether a depth-first walk is inside the packages of `stack`, and done with all others that have
a color. -/
structure Underway (d : Discovery) (home : ProjectRoot) (direct stack : List String) (w : Walk) :
    Prop extends d.Consistent home direct w where
  grey : ∀ p, w.colors.get? p = some .grey ↔ p ∈ stack
  entered : ∀ p color, w.colors.get? p = some color → home.contains p = false → d.Entered w p
  closed : ∀ p q, w.colors.get? p = some .black → d.Follows home p q →
    w.colors.get? q = some .black
  acyclic : ∀ p, w.colors.get? p = some .black → ¬ TransGen (d.Follows home) p p

/-- Why a walk may fail: a reached package imports itself through others, or the project of a reached
package outside the project itself cannot be deduced. -/
inductive Obstructs (d : Discovery) (home : ProjectRoot) (direct : List String) :
    DiscoveryError → Prop where
  | importCycle {path : String} : d.Reached home direct path →
      TransGen (d.Follows home) path path → Obstructs d home direct (.importCycle path)
  | deduceRoot {path : String} {cause : SourceError} : d.Reached home direct path →
      home.contains path = false → d.sources.deduceRoot path = .error cause →
      Obstructs d home direct (.deduceRoot path cause)

/-- How visits of some packages may end: the walk goes on and they are black, or it fails for a
reason. -/
def Visited (d : Discovery) (home : ProjectRoot) (direct stack paths : List String) (w : Walk) :
    Except WalkFailure Walk → Prop
  | .ok w' => d.Underway home direct stack w' ∧ Grows w w' ∧
      ∀ p ∈ paths, w'.colors.get? p = some .black
  | .error f => d.Obstructs home direct f.error

namespace Underway

theorem of_classifying (h : d.Classifying home direct w) :
  d.Underway home direct [] w
  where
  toConsistent := h.toConsistent
  grey := by simp [h.uncolored]
  entered := by simp [h.uncolored]
  closed := by simp [h.uncolored]
  acyclic := by simp [h.uncolored]

/-- Everything that is followed from a black package is black. -/
theorem black_of_leads (h : d.Underway home direct stack w) {p q : String}
    (hp : w.colors.get? p = some .black) (hlead : ReflTransGen (d.Follows home) p q) :
  w.colors.get? q = some .black
  := by
  induction hlead with
  | refl => apply hp
  | tail _ hfollows ih => apply h.closed _ _ ih hfollows

/-- A package turns black when all that is followed from it is black. It lies on no cycle, since
otherwise it would be followed from a black package and so be black before. -/
theorem blacken {stack' : List String} (h : d.Underway home direct stack w)
    (hw' : d.Consistent home direct w') (hgrows : Grows w w')
    (hcolors : w'.colors = w.colors.insert path .black)
    (hstack : ∀ p, p ∈ stack' ↔ p ∈ stack ∧ p ≠ path) (hpath : w.colors.get? path ≠ some .black)
    (hentered : home.contains path = false → d.Entered w' path)
    (hfollowed : ∀ q, d.Follows home path q → w.colors.get? q = some .black) :
  d.Underway home direct stack' w'
  where
  toConsistent := hw'
  grey := by
    intro p
    rw [hcolors, hstack, ← h.grey p, SortedMap.get?_insert]
    by_cases heq : p = path
    · simp [heq]
    · simp [heq]
  entered := by
    intro p color hp hhome
    rw [hcolors, SortedMap.get?_insert] at hp
    split at hp
    next heq =>
      subst heq
      apply hentered hhome
    next => apply (h.entered p color hp hhome).mono hgrows
  closed := by
    intro p q hp hfollows
    apply hgrows.black
    rw [hcolors, SortedMap.get?_insert] at hp
    split at hp
    next heq =>
      subst heq
      apply hfollowed q hfollows
    next => apply h.closed p q hp hfollows
  acyclic := by
    intro p hp hcycle
    rw [hcolors, SortedMap.get?_insert] at hp
    split at hp
    next heq =>
      subst heq
      -- the cycle comes back to the package from one that it follows, which is black already
      obtain ⟨q, hfollows, hlead⟩ := TransGen.head'_iff.1 hcycle
      apply hpath (h.black_of_leads (hfollowed q hfollows) hlead)
    next => apply h.acyclic p hp hcycle

/-- After the imports of the package that the walk is in are visited, the package turns black. -/
theorem leave (h : d.Underway home direct (path :: stack) w) (hpath : path ∉ stack)
    (hfollowed : ∀ q, d.Follows home path q → w.colors.get? q = some .black) :
  d.Underway home direct stack (w.paint path .black)
  := by
  have hgrey : w.colors.get? path = some .grey := (h.grey path).2 List.mem_cons_self
  apply h.blacken (h.toConsistent.paint path .black) (.paint_black w path) rfl _ _ _ hfollowed
  · intro p
    rw [List.mem_cons]
    constructor
    · intro hp
      use .inr hp
      rintro rfl
      apply hpath hp
    · rintro ⟨rfl | hp, hne⟩
      · apply absurd rfl hne
      · apply hp
  · simp [hgrey]
  · intro hhome
    apply (h.entered path .grey hgrey hhome).mono (.paint_black w path)

/-- A package from which nothing is followed turns black at once. -/
theorem pass (h : d.Underway home direct stack w) (hw' : d.Consistent home direct w')
    (hgrows : Grows w w') (hnew : w.colors.get? path = none)
    (hcolors : w'.colors = w.colors.insert path .black)
    (hentered : home.contains path = false → d.Entered w' path)
    (hfollowed : ∀ q, ¬ d.Follows home path q) :
  d.Underway home direct stack w' ∧ w'.colors.get? path = some .black
  := by
  have hstack : path ∉ stack := by
    rw [← h.grey path, hnew]
    simp
  constructor
  · apply h.blacken hw' hgrows hcolors _ (by simp [hnew]) hentered
    · intro q hfollows
      apply absurd hfollows (hfollowed q)
    · intro p
      constructor
      · intro hp
        use hp
        rintro rfl
        apply hstack hp
      · apply And.left
  · rw [hcolors, SortedMap.get?_insert_self]

/-- Entering a package that is passed over leaves it black. -/
theorem enter_none (h : d.Underway home direct stack w) (hpath : d.Reached home direct path)
    (hw' : d.enter home w path = .ok (w', none)) :
  d.Underway home direct stack w' ∧ Grows w w' ∧ w'.colors.get? path = some .black
  := by
  obtain ⟨hentry, hcheckouts⟩ := h.toConsistent.entry hpath hw'
  have hconsistent := hentry.consistent h.toConsistent hcheckouts hpath
  have hgrows := hentry.grows
  have hentered := hentry.entered
  rw [and_left_comm]
  use hgrows
  cases hentry with
  | seen hblack => exact ⟨h, hblack⟩
  | own hnew hhome _ hcolors _ =>
    apply h.pass hconsistent hgrows hnew hcolors (hentered hnew)
    intro q hfollows
    have houtside := hfollows.outside
    rw [hhome] at houtside
    cases houtside
  | unusable hnew _ hroot hcheckout _ hcolors _ =>
    apply h.pass hconsistent hgrows hnew hcolors (hentered hnew)
    intro q hfollows
    obtain ⟨c, hc, -⟩ := hfollows.imports.usable.reach hroot
    rw [hcheckout] at hc
    cases hc
  | missing hnew _ hroot hc hmissing _ hcolors _ =>
    apply h.pass hconsistent hgrows hnew hcolors (hentered hnew)
    intro q hfollows
    obtain ⟨c', hc', hreach⟩ := hfollows.imports.usable.reach hroot
    rw [hc] at hc'
    cases hc'
    rw [hmissing] at hreach
    cases hreach

/-- Entering a package that is gone into puts the walk into it, and what is to be visited next is
what is followed from it. -/
theorem enter_some {imports : List String} (h : d.Underway home direct stack w)
    (hpath : d.Reached home direct path) (hw' : d.enter home w path = .ok (w', some imports)) :
  d.Underway home direct (path :: stack) w' ∧ Grows w w' ∧ path ∉ stack ∧
    ∀ q, q ∈ imports ↔ d.Follows home path q
  := by
  obtain ⟨hentry, hcheckouts⟩ := h.toConsistent.entry hpath hw'
  have hconsistent := hentry.consistent h.toConsistent hcheckouts hpath
  have hgrows := hentry.grows
  have hentered := hentry.entered
  have hfollows := hentry.mem_imports_iff
  cases hentry with
  | usable hnone _ _ _ _ _ hcolors _ =>
    have hblack : ∀ p, w'.colors.get? p = some .black → w.colors.get? p = some .black := by
      intro p hp
      rw [hcolors, SortedMap.get?_insert] at hp
      split at hp
      next => cases hp
      next => apply hp
    refine ⟨?_, hgrows, ?_, hfollows⟩
    · constructor
      · apply hconsistent
      · intro p
        rw [hcolors, List.mem_cons, ← h.grey p, SortedMap.get?_insert]
        by_cases heq : p = path
        · simp [heq]
        · simp [heq]
      · intro p color hp hhome
        rw [hcolors, SortedMap.get?_insert] at hp
        split at hp
        next heq =>
          subst heq
          apply hentered hnone hhome
        next => apply (h.entered p color hp hhome).mono hgrows
      · intro p q hp hfollows
        apply hgrows.black (h.closed p q (hblack p hp) hfollows)
      · intro p hp
        apply h.acyclic p (hblack p hp)
    · rw [← h.grey path, hnone]
      simp

/-- Entering a package fails for a reason: if the walk is in it, it imports itself. -/
theorem enter_error (h : d.Underway home direct stack w) (hpath : d.Reached home direct path)
    (hstack : ∀ p ∈ stack, TransGen (d.Follows home) p path) {f : WalkFailure}
    (hf : d.enter home w path = .error f) :
  d.Obstructs home direct f.error
  := by
  obtain ⟨-, ⟨hgrey, herror⟩ | ⟨hhome, cause, hroot, herror⟩⟩ := error_of_enter hf
  · rw [herror]
    apply Obstructs.importCycle hpath
    apply hstack path ((h.grey path).1 hgrey)
  · rw [herror]
    apply Obstructs.deduceRoot hpath hhome hroot

/-! ### Visits -/

/-- Visits that each may end in one of the two ways end in one of them together. -/
theorem visitEach {visit : Walk → String → Option (Except WalkFailure Walk)}
    (hvisit : ∀ w path r, path ∈ paths → d.Underway home direct stack w →
      visit w path = some r → d.Visited home direct stack [path] w r)
    (h : d.Underway home direct stack w) {r : Except WalkFailure Walk}
    (hr : visitEach visit w paths = some r) :
  d.Visited home direct stack paths w r
  := by
  induction paths generalizing w with
  | nil =>
    rw [Discovery.visitEach] at hr
    cases hr
    exact ⟨h, .refl w, by simp⟩
  | cons path paths ih =>
    rw [Discovery.visitEach] at hr
    split at hr
    next v hv =>
      obtain ⟨hunderway, hgrows, hblack⟩ := hvisit w path (.ok v) List.mem_cons_self h hv
      have hrest := ih (fun w path' r hpath' => hvisit w path' r (List.mem_cons_of_mem _ hpath'))
        hunderway hr
      cases r with
      | error f => apply hrest
      | ok w' =>
        obtain ⟨hunderway', hgrows', hblack'⟩ := hrest
        refine ⟨hunderway', hgrows.trans hgrows', List.forall_mem_cons.2 ⟨?_, hblack'⟩⟩
        apply hgrows'.black (hblack path List.mem_cons_self)
    next hstopped =>
      cases r with
      | ok w' => apply absurd hr (hstopped w')
      | error f => apply hvisit w path (.error f) List.mem_cons_self h hr

/-- A visit of a reached package to which all that the walk is in leads ends with the package black,
or fails for a reason. -/
theorem visitAlong {i : Itinerary} {budget : Nat} (h : d.Underway home direct stack w)
    (hpath : d.Reached home direct path)
    (hstack : ∀ p ∈ stack, TransGen (d.Follows home) p path) {r : Except WalkFailure Walk}
    (hr : d.visitAlong i home budget w path = some r) :
  d.Visited home direct stack [path] w r
  := by
  -- the stack grows by the package with each nested visit, so the claim is about all stacks
  induction budget generalizing w path stack r with
  | zero => cases hr
  | succ budget ih =>
    rw [Discovery.visitAlong] at hr
    split at hr
    next f hf =>
      cases hr
      apply h.enter_error hpath hstack hf
    next v hv =>
      cases hr
      obtain ⟨hunderway, hgrows, hblack⟩ := h.enter_none hpath hv
      exact ⟨hunderway, hgrows, by simpa using hblack⟩
    next v imports hv =>
      obtain ⟨hunderway, hgrows, hnew, hfollows⟩ := h.enter_some hpath hv
      obtain ⟨r', hr', rfl⟩ := Option.map_eq_some_iff.1 hr
      have hvisited : d.Visited home direct (path :: stack) (i.arrange path imports) v r' := by
        apply hunderway.visitEach _ hr'
        intro w' q r hq hw' hvisit
        have hfollowed := (hfollows q).1 (i.mem_arrange.1 hq)
        apply ih hw' (.imported hpath hfollowed) _ hvisit
        intro p hp
        rcases List.mem_cons.1 hp with rfl | hp
        · apply TransGen.single hfollowed
        · apply (hstack p hp).tail hfollowed
      cases r' with
      | error f => apply hvisited
      | ok v' =>
        obtain ⟨hunderway', hgrows', hblack⟩ := hvisited
        refine ⟨?_, (hgrows.trans hgrows').trans (.paint_black v' path), ?_⟩
        · apply hunderway'.leave hnew
          intro q hq
          apply hblack q (i.mem_arrange.2 ((hfollows q).2 hq))
        · simp [Walk.paint]

end Underway

end DepLock.Discovery
