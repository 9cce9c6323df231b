import DepLock.Proofs.Discovery.Entry

/-!
# The calls of a walk

A `Call` is a visit that is made in the course of a walk: the package and the walk so far. The calls
of a visit are itself and, if the imports of its package are followed, the calls of their visits, in
this order. Colors and checkouts stay: what a call leaves behind when it has entered its package is
there at every later call and in the end. This holds of calls from any walk, whether or not the
budget suffices and the walk succeeds.
-/

namespace DepLock

/-- Whether no package loses its color between two walks. -/
def Walk.ColorsStay (w w' : Walk) : Prop :=
  ∀ path, w.colors.contains path = true → w'.colors.contains path = true

/-- The walk in which a visit ends, or fails. -/
def lastWalk : Except WalkFailure Walk → Walk
  | .ok w => w
  | .error f => f.walk

namespace Discovery

/-- A visit that is made: the walk so far and the package. -/
structure Call where
  walk : Walk
  path : String

/-- The walk after the package of a call is entered. -/
def Call.after (d : Discovery) (home : ProjectRoot) (c : Call) : Walk :=
  match d.enter home c.walk c.path with
  | .ok (w, _) => w
  | .error f => f.walk

/-- The calls of some visits, one after the other. -/
def callsEach (visit : Walk → String → Option (Except WalkFailure Walk))
    (calls : Walk → String → List Call) : Walk → List String → List Call
  | _, [] => []
  | w, path :: paths =>
    calls w path ++ match visit w path with
      | some (.ok w) => callsEach visit calls w paths
      | _ => []

/-- The calls of a visit within a budget. -/
def calls (d : Discovery) (home : ProjectRoot) : Nat → Walk → String → List Call
  | 0, _, _ => []
  | budget + 1, w, path =>
    ⟨w, path⟩ :: match d.enter home w path with
      | .ok (w, some imports) => callsEach (d.visit home budget) (d.calls home budget) w imports
      | _ => []

/-- The calls of the walk over the direct imports of a project. -/
def walkCalls (d : Discovery) (home : ProjectRoot) (direct : List String) (budget : Nat)
    (w : Walk) : List Call :=
  match d.classifyAll w direct with
  | .error _ => []
  | .ok w => callsEach (d.visit home budget) (d.calls home budget) w direct

variable {d : Discovery} {home root : ProjectRoot} {direct paths : List String} {path : String}
  {w w' w'' : Walk} {cs cs' : List Call} {r : Option (Except WalkFailure Walk)} {budget : Nat}

/-- What a walk keeps at every point: no color is removed, and no checkout. -/
structure Keeps (w w' : Walk) : Prop where
  colors : w.ColorsStay w'
  checkouts : ∀ root, w.checkouts.contains root = true → w'.checkouts.contains root = true

namespace Keeps

theorem of_eq (hcolors : w'.colors = w.colors) (hcheckouts : w'.checkouts = w.checkouts) :
  Keeps w w'
  where
  colors path h := by
    rw [hcolors]
    apply h
  checkouts root h := by
    rw [hcheckouts]
    apply h

theorem refl (w : Walk) :
  Keeps w w
  := of_eq rfl rfl

theorem trans (h : Keeps w w') (h' : Keeps w' w'') :
  Keeps w w''
  where
  colors path hpath := h'.colors path (h.colors path hpath)
  checkouts root hroot := h'.checkouts root (h.checkouts root hroot)

theorem paint (w : Walk) (path : String) (color : Color) :
  Keeps w (w.paint path color)
  where
  colors path' h := by simp [Walk.paint, SortedMap.contains_insert, h]
  checkouts _ h := h

/-- Looking up the checkout of a project keeps colors and checkouts. -/
theorem checkout (d : Discovery) (w : Walk) (root : ProjectRoot) :
  Keeps w (d.checkout w root).1
  := by
  unfold Discovery.checkout
  split
  next => apply refl
  next =>
    split
    next => apply refl
    next =>
      obtain ⟨hcolors, -, -, hcheckouts⟩ := load_frame d w root
      constructor
      · intro path h
        rw [hcolors]
        apply h
      · intro root' h
        rw [hcheckouts]
        cases (d.load w root).2 with
        | none => apply h
        | some c => simp [SortedMap.contains_insert, h]

/-- So does looking up that of a new package, which turns grey before. -/
theorem look {v : Walk} {found : Option Checkout}
    (hv : d.checkout ((w.paint path .grey).sync root) root = (v, found)) :
  Keeps w v
  := by
  have hcheckout := checkout d ((w.paint path .grey).sync root) root
  rw [hv] at hcheckout
  apply (paint w path .grey).trans
  apply Keeps.trans _ hcheckout
  apply of_eq Walk.colors_sync Walk.checkouts_sync

/-- Then the package has its color. -/
theorem contains_look {v : Walk} {found : Option Checkout}
    (hv : d.checkout ((w.paint path .grey).sync root) root = (v, found)) :
  v.colors.contains path = true
  := by
  have hcheckout := checkout d ((w.paint path .grey).sync root) root
  rw [hv] at hcheckout
  apply hcheckout.colors path
  simp [Walk.paint, SortedMap.contains_insert]

end Keeps

/-! ### Entering a package -/

namespace Call

/-- Entering a package keeps colors and checkouts. -/
theorem keeps_after (d : Discovery) (home : ProjectRoot) (c : Call) :
  Keeps c.walk (c.after d home)
  := by
  unfold after
  have henters := d.enters home c.walk c.path
  generalize d.enter home c.walk c.path = e at henters ⊢
  cases henters with
  | seen => apply Keeps.refl
  | cycle => apply Keeps.refl
  | own => apply Keeps.paint
  | refused => apply Keeps.paint
  | @absent root v _ _ _ hv =>
    have hrecord : Keeps v (v.record root c.path) := .of_eq rfl rfl
    exact (Keeps.look hv).trans (hrecord.trans (.paint _ c.path .black))
  | missing _ _ _ hv _ => exact (Keeps.look hv).trans (.paint _ c.path .black)
  | followed _ _ _ hv _ =>
    apply (Keeps.look hv).trans
    exact .of_eq rfl rfl

end Call

/-! ### Calls in their order -/

/-- Whether some calls are made, one after the other, from a walk on until a visit ends, if it does:
what is left behind by one of them is there at those after it and in the end. -/
structure Traced (d : Discovery) (home : ProjectRoot) (w : Walk) (cs : List Call)
    (r : Option (Except WalkFailure Walk)) : Prop where
  begins : ∀ c ∈ cs, Keeps w c.walk
  ordered : cs.Pairwise fun c c' => Keeps (c.after d home) c'.walk
  keeps : ∀ e, r = some e → Keeps w (lastWalk e)
  ends : ∀ e, r = some e → ∀ c ∈ cs, Keeps (c.after d home) (lastWalk e)

namespace Traced

/-- Where no call is made, the walk stays as it is. -/
theorem nil (hkeeps : ∀ e, r = some e → Keeps w (lastWalk e)) :
  d.Traced home w [] r
  where
  begins := by simp
  ordered := List.Pairwise.nil
  keeps := hkeeps
  ends := by simp

theorem append (h : d.Traced home w cs (some (.ok w'))) (h' : d.Traced home w' cs' r) :
  d.Traced home w (cs ++ cs') r
  where
  begins := by
    rw [List.forall_mem_append]
    use h.begins
    intro c hc
    apply (h.keeps _ rfl).trans (h'.begins c hc)
  ordered := by
    rw [List.pairwise_append]
    use h.ordered, h'.ordered
    intro c hc c' hc'
    apply (h.ends _ rfl c hc).trans (h'.begins c' hc')
  keeps e he := (h.keeps _ rfl).trans (h'.keeps e he)
  ends e he := by
    rw [List.forall_mem_append]
    use fun c hc => (h.ends _ rfl c hc).trans (h'.keeps e he), h'.ends e he

/-- A call by which a package is entered comes before those that follow its imports. -/
theorem cons {c : Call} (h : d.Traced home (c.after d home) cs r) :
  d.Traced home c.walk (c :: cs) r
  where
  begins := by
    rw [List.forall_mem_cons]
    use .refl _
    intro c' hc'
    apply (c.keeps_after d home).trans (h.begins c' hc')
  ordered := List.pairwise_cons.2 ⟨h.begins, h.ordered⟩
  keeps e he := (c.keeps_after d home).trans (h.keeps e he)
  ends e he := List.forall_mem_cons.2 ⟨h.keeps e he, h.ends e he⟩

/-- The package of a call turns black in the end. -/
theorem map_paint (h : d.Traced home w cs r) (path : String) :
  d.Traced home w cs (r.map fun e => e.map (·.paint path .black))
  := by
  have hlast (e) : Keeps (lastWalk e) (lastWalk (e.map (·.paint path .black))) := by
    cases e with
    | ok w => apply Keeps.paint
    | error f => apply Keeps.refl
  use h.begins, h.ordered
  · intro e he
    obtain ⟨e', he', rfl⟩ := Option.map_eq_some_iff.1 he
    apply (h.keeps e' he').trans (hlast e')
  · intro e he c hc
    obtain ⟨e', he', rfl⟩ := Option.map_eq_some_iff.1 he
    apply (h.ends e' he' c hc).trans (hlast e')

theorem visitEach {visit : Walk → String → Option (Except WalkFailure Walk)}
    {calls : Walk → String → List Call}
    (h : ∀ w path, d.Traced home w (calls w path) (visit w path)) (w : Walk)
    (paths : List String) :
  d.Traced home w (callsEach visit calls w paths) (visitEach visit w paths)
  := by
  induction paths generalizing w with
  | nil =>
    apply nil
    intro e he
    cases he
    apply Keeps.refl
  | cons path paths ih =>
    have hpath := h w path
    rw [callsEach, Discovery.visitEach]
    cases hr : visit w path with
    | none =>
      rw [hr] at hpath
      simpa using hpath
    | some e =>
      rw [hr] at hpath
      cases e with
      | error f => simpa using hpath
      | ok w' => apply hpath.append (ih w')

/-- The calls of a visit are made one after the other until it ends. -/
theorem visit (d : Discovery) (home : ProjectRoot) (budget : Nat) (w : Walk) (path : String) :
  d.Traced home w (d.calls home budget w path) (d.visit home budget w path)
  := by
  induction budget generalizing w path with
  | zero =>
    apply nil
    intro e he
    cases he
  | succ budget ih =>
    rw [calls, Discovery.visit]
    apply cons (c := ⟨w, path⟩)
    rw [Call.after]
    cases henter : d.enter home w path with
    | error f =>
      apply nil
      intro e he
      cases he
      apply Keeps.refl
    | ok next =>
      obtain ⟨w', imports⟩ := next
      cases imports with
      | none =>
        apply nil
        intro e he
        cases he
        apply Keeps.refl
      | some imports => apply (visitEach ih w' imports).map_paint

end Traced

/-- After all direct imports are classified, the calls of a walk are made one after the other until
it ends. -/
theorem exists_traced_walk (d : Discovery) (home : ProjectRoot) (direct : List String)
    (budget : Nat) (w : Walk) :
  ∃ w', d.Traced home w' (d.walkCalls home direct budget w) (d.walk home direct budget w)
  := by
  rw [walkCalls, walk]
  cases d.classifyAll w direct with
  | error f =>
    use f.walk
    apply Traced.nil
    intro e he
    cases he
    apply Keeps.refl
  | ok w' =>
    use w'
    apply Traced.visitEach
    apply Traced.visit

end Discovery
end DepLock
