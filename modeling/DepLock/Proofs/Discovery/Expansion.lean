import DepLock.Proofs.Discovery.Calls
import DepLock.Proofs.Discovery.Success

/-!
# A walk expands each package once

A call of a visit goes on to deduce the project of its package if another answer to that question
would lead it elsewhere; it iterates imports if that is what entering the package asks for; and it
lists a directory if it would go elsewhere were the listing refused. Only a package without a color
is deduced, and it has one from then on; only a project without a listed checkout is listed, and it
has one from then on. So neither happens twice in the calls of a walk.
-/

namespace DepLock

@[simp]
theorem Walk.log_sync (w : Walk) (root : ProjectRoot) :
  (w.sync root).log = w.log
  := by
  unfold sync
  split <;> rfl

namespace Discovery

variable {d : Discovery} {home root : ProjectRoot} {direct paths : List String} {path : String}
  {w w' : Walk} {budget budget' : Nat} {c c' : Call} {tree : PackageTree}
  {roots : List ProjectRoot}

/-- The discovery with other answers to which project owns a path. -/
def deducing (d : Discovery) (deduceRoot : String → Except SourceError ProjectRoot) : Discovery :=
  { d with sources := { d.sources with deduceRoot } }

/-- The discovery whose lister refuses to list the directory of a project. -/
def refusing (d : Discovery) (root : ProjectRoot) (e : ListError) : Discovery :=
  { d with lister := fun directory text =>
      if text = root.text then .error e else d.lister directory text }

namespace Call

/-- Whether a call goes on to deduce the project of its package: the answer makes a difference. -/
def Deduces (d : Discovery) (home : ProjectRoot) (c : Call) : Prop :=
  ∃ deduceRoot, (d.deducing deduceRoot).enter home c.walk c.path ≠ d.enter home c.walk c.path

/-- Whether a call goes on to iterate the imports of its package. -/
def Iterates (d : Discovery) (home : ProjectRoot) (c : Call) : Prop :=
  ∃ w imports, d.enter home c.walk c.path = .ok (w, some imports)

/-- Whether a call lists the directory of a project with success: there are packages to list, and it
would make a difference if the lister refused. -/
def Lists (d : Discovery) (home : ProjectRoot) (c : Call) (root : ProjectRoot) : Prop :=
  (∃ directory tree, d.workspace.directory? root = some directory ∧
    d.lister directory root.text = .ok tree) ∧
  ∃ e, (d.refusing root e).enter home c.walk c.path ≠ d.enter home c.walk c.path

end Call

/-! ### Deductions -/

/-- Where the project of a new package is not known, the walk fails. -/
theorem enter_of_refused {cause : SourceError} (hnone : w.colors.get? path = none)
    (hhome : home.contains path = false) (hcause : d.sources.deduceRoot path = .error cause) :
  d.enter home w path = .error ⟨.deduceRoot path cause, w.paint path .grey⟩
  := by
  simp [enter, deduce, hnone, hhome, hcause]

/-- Where it is known, the walk goes on. -/
theorem exists_enter_of_deduced (hnone : w.colors.get? path = none)
    (hroot : d.sources.deduceRoot path = .ok root) :
  ∃ next, d.enter home w path = .ok next
  := by
  have henters := d.enters home w path
  generalize d.enter home w path = e at henters ⊢
  cases henters with
  | cycle hgrey => simp [hnone] at hgrey
  | refused _ _ hcause => simp [hroot] at hcause
  | seen => exact ⟨_, rfl⟩
  | own => exact ⟨_, rfl⟩
  | absent => exact ⟨_, rfl⟩
  | missing => exact ⟨_, rfl⟩
  | followed => exact ⟨_, rfl⟩

namespace Call

/-- A package is deduced if it has no color and lies outside the project itself, and not
otherwise. -/
theorem deduces_iff :
  c.Deduces d home ↔ c.walk.colors.get? c.path = none ∧ home.contains c.path = false
  := by
  constructor
  · rintro ⟨deduceRoot, hne⟩
    by_contra hseen
    simp only [not_and, Bool.not_eq_false] at hseen
    apply hne
    unfold Discovery.enter
    split
    next => rfl
    next => rfl
    next hnone => simp only [hseen hnone, if_true]
  · rintro ⟨hnone, hhome⟩
    cases hanswer : d.sources.deduceRoot c.path with
    | ok root =>
      use fun _ => .error .emptyImportPath
      obtain ⟨next, hnext⟩ := exists_enter_of_deduced hnone hanswer
      rw [hnext, enter_of_refused hnone hhome rfl]
      simp
    | error cause =>
      use fun _ => .ok home
      obtain ⟨next, hnext⟩ := exists_enter_of_deduced (d := d.deducing fun _ => .ok home) hnone rfl
      rw [hnext, enter_of_refused hnone hhome hanswer]
      simp

/-- A package that is deduced has no color before and has one afterwards. -/
theorem Deduces.colors (h : c.Deduces d home) :
  c.walk.colors.get? c.path = none ∧ (c.after d home).colors.contains c.path = true
  := by
  obtain ⟨hnone, hhome⟩ := deduces_iff.1 h
  use hnone
  have henters := d.enters home c.walk c.path
  unfold after
  generalize d.enter home c.walk c.path = e at henters ⊢
  cases henters with
  | seen hblack => simp [hnone] at hblack
  | cycle hgrey => simp [hnone] at hgrey
  | own => simp [Walk.paint, SortedMap.contains_insert]
  | refused => simp [Walk.paint, SortedMap.contains_insert]
  | absent => simp [Walk.paint, SortedMap.contains_insert]
  | missing => simp [Walk.paint, SortedMap.contains_insert]
  | followed _ _ _ hv _ => apply Keeps.contains_look hv

/-- Only a package that is deduced has its imports iterated. -/
theorem Iterates.deduces (h : c.Iterates d home) :
  c.Deduces d home
  := by
  obtain ⟨w, imports, hnext⟩ := h
  have henters := d.enters home c.walk c.path
  rw [hnext] at henters
  cases henters with
  | followed hnone hhome _ _ _ => exact deduces_iff.2 ⟨hnone, hhome⟩

end Call

/-! ### Listings -/

/-- What it takes for a call to list the directory of a project: its package is deduced to lie in
the project, the project is not known to have no usable checkout and has not been listed, and there
is a directory at a version that is known. -/
structure Call.Asks (d : Discovery) (home : ProjectRoot) (c : Call) (root : ProjectRoot) :
    Prop where
  uncolored : c.walk.colors.get? c.path = none
  outside : home.contains c.path = false
  owned : d.sources.deduceRoot c.path = .ok root
  unmarked : c.walk.data.notOnDisk.contains root = false
  unlisted : c.walk.checkouts.get? root = none
  located : ∃ directory tree, d.workspace.directory? root = some directory ∧
    d.lister directory root.text = .ok tree
  versioned : ∃ version,
    (c.walk.data.onDisk.get? root).or (d.workspace.version root).version? = some version

/-- A project that is neither marked nor listed is loaded. -/
theorem checkout_of_unlisted (hunmarked : w.data.notOnDisk.contains root = false)
    (hunlisted : w.checkouts.get? root = none) :
  d.checkout w root = d.load w root
  := by
  simp [checkout, hunmarked, hunlisted]

/-- A project of which the listing fails is reported. -/
theorem load_of_refused {directory : String} {version : Version} {e : ListError}
    (hdirectory : d.workspace.directory? root = some directory)
    (hversion : (w.data.onDisk.get? root).or (d.workspace.version root).version? = some version)
    (hrefused : d.lister directory root.text = .error e) :
  d.load w root
    = ((w.tell (.warn s!"Unable to list packages of {root.text}: {e.message}")).markNotOnDisk root,
      none)
  := by
  simp only [load, hdirectory, hversion, hrefused]

/-- Looking up a checkout depends on the lister only if that is asked. -/
theorem checkout_congr {lister : PackageLister}
    (h : w.data.notOnDisk.contains root = false → w.checkouts.get? root = none → ∀ version,
      (w.data.onDisk.get? root).or (d.workspace.version root).version? = some version →
      ({ d with lister } : Discovery).load w root = d.load w root) :
  ({ d with lister } : Discovery).checkout w root = d.checkout w root
  := by
  unfold checkout
  split
  next => rfl
  next hunmarked =>
    split
    next => rfl
    next hunlisted =>
      cases hversion : (w.data.onDisk.get? root).or (d.workspace.version root).version? with
      | none => simp only [load, hversion]
      | some version =>
        apply h (Bool.eq_false_iff.2 hunmarked) hunlisted version hversion

/-- Entering a package depends on the lister through the checkout of the project only. -/
theorem enter_congr {lister : PackageLister}
    (h : ∀ root, w.colors.get? path = none → home.contains path = false →
      d.sources.deduceRoot path = .ok root →
      ({ d with lister } : Discovery).checkout ((w.paint path .grey).sync root) root
        = d.checkout ((w.paint path .grey).sync root) root) :
  ({ d with lister } : Discovery).enter home w path = d.enter home w path
  := by
  unfold Discovery.enter deduce
  split
  next => rfl
  next => rfl
  next hnone =>
    split
    next => rfl
    next hhome =>
      rw [Bool.not_eq_true] at hhome
      dsimp only
      cases hroot : d.sources.deduceRoot path with
      | error cause => rfl
      | ok root =>
        dsimp only
        rw [h root hnone hhome hroot]

/-- The refusal to list one project does not matter to another. -/
theorem checkout_refusing {root' : ProjectRoot} (hne : root' ≠ root) (e : ListError) (w : Walk) :
  (d.refusing root e).checkout w root' = d.checkout w root'
  := by
  have htext : root'.text ≠ root.text := by
    intro heq
    apply hne
    cases root
    cases root'
    cases heq
    rfl
  simp only [checkout, load, refusing, if_neg htext]

namespace Call

variable {v : Walk} {found : Checkout}

/-- When there is a checkout, nothing but colors and data changes after it is looked up. -/
theorem after_of_found (hnone : c.walk.colors.get? c.path = none)
    (hhome : home.contains c.path = false) (hroot : d.sources.deduceRoot c.path = .ok root)
    (hv : d.checkout ((c.walk.paint c.path .grey).sync root) root = (v, some found)) :
  (c.after d home).checkouts = v.checkouts ∧ (c.after d home).log = v.log
  := by
  cases himports : Checkout.imports? found c.path with
  | none =>
    have hafter : c.after d home = v.paint c.path .black := by
      simp [after, enter, deduce, hnone, hhome, hroot, hv, himports]
    rw [hafter]
    exact ⟨rfl, rfl⟩
  | some imports =>
    rw [after, enter_of_imports hnone hhome hroot hv himports]
    exact ⟨rfl, rfl⟩

/-- When there is none, the package is recorded. -/
theorem after_of_absent (hnone : c.walk.colors.get? c.path = none)
    (hhome : home.contains c.path = false) (hroot : d.sources.deduceRoot c.path = .ok root)
    (hv : d.checkout ((c.walk.paint c.path .grey).sync root) root = (v, none)) :
  c.after d home = (v.record root c.path).paint c.path .black
  := by
  simp [after, enter, deduce, hnone, hhome, hroot, hv]

namespace Asks

/-- What is asked for is asked for in the walk in which the package is grey, too. -/
theorem ready (h : c.Asks d home root) :
  ((c.walk.paint c.path .grey).sync root).data.notOnDisk.contains root = false ∧
    ((c.walk.paint c.path .grey).sync root).checkouts.get? root = none ∧
    ∃ version, (((c.walk.paint c.path .grey).sync root).data.onDisk.get? root).or
      (d.workspace.version root).version? = some version
  := by
  rw [Walk.data_sync, Walk.checkouts_sync]
  exact ⟨h.unmarked, h.unlisted, h.versioned⟩

/-- A project that is asked for has a listed checkout afterwards, and nothing is reported. -/
theorem after_spec (h : c.Asks d home root) :
  (c.after d home).checkouts.contains root = true ∧ (c.after d home).log = c.walk.log
  := by
  obtain ⟨directory, tree, hdirectory, htree⟩ := h.located
  obtain ⟨hunmarked, hunlisted, version, hversion⟩ := h.ready
  have hv := (checkout_of_unlisted hunmarked hunlisted).trans
    (load_of_listed hdirectory hversion htree)
  obtain ⟨hcheckouts, hlog⟩ := after_of_found h.uncolored h.outside h.owned hv
  rw [hcheckouts, hlog]
  constructor
  · simp [SortedMap.contains_insert]
  · rw [Walk.log_sync]
    rfl

/-- If the listing is refused, that is reported. -/
theorem log_refusing (h : c.Asks d home root) (e : ListError) :
  (c.after (d.refusing root e) home).log
    = c.walk.log ++ [.warn s!"Unable to list packages of {root.text}: {e.message}"]
  := by
  obtain ⟨directory, tree, hdirectory, -⟩ := h.located
  obtain ⟨hunmarked, hunlisted, version, hversion⟩ := h.ready
  have hrefused : (d.refusing root e).lister directory root.text = .error e := if_pos rfl
  have hv := (checkout_of_unlisted (d := d.refusing root e) hunmarked hunlisted).trans
    (load_of_refused hdirectory hversion hrefused)
  rw [after_of_absent (d := d.refusing root e) h.uncolored h.outside h.owned hv]
  simp [Walk.record, Walk.paint, Walk.markNotOnDisk, Walk.tell]

end Asks

/-- A call lists the directory of a project if it asks for it, and not otherwise. -/
theorem lists_iff :
  c.Lists d home root ↔ c.Asks d home root
  := by
  constructor
  · rintro ⟨hlocated, e, hne⟩
    by_contra hasks
    apply hne
    apply enter_congr
    intro root' hnone hhome howned
    by_cases hroot : root' = root
    · subst hroot
      apply checkout_congr
      intro hunmarked hunlisted version hversion
      rw [Walk.data_sync] at hunmarked hversion
      rw [Walk.checkouts_sync] at hunlisted
      apply absurd _ hasks
      exact ⟨hnone, hhome, howned, hunmarked, hunlisted, hlocated, version, hversion⟩
    · apply checkout_refusing hroot
  · intro h
    use h.located, .notFound ""
    intro heq
    have hlog : (c.after (d.refusing root (.notFound "")) home).log = (c.after d home).log := by
      rw [after, after, heq]
    rw [h.log_refusing, h.after_spec.2] at hlog
    simp at hlog

/-- A project whose directory is listed has no listed checkout before and has one afterwards. -/
theorem Lists.checkouts (h : c.Lists d home root) :
  c.walk.checkouts.get? root = none ∧ (c.after d home).checkouts.contains root = true
  := by
  have hasks := lists_iff.1 h
  exact ⟨hasks.unlisted, hasks.after_spec.1⟩

end Call

/-! ### Budgets -/

theorem visitEach_mono {visit visit' : Walk → String → Option (Except WalkFailure Walk)}
    (h : ∀ w path r, visit w path = some r → visit' w path = some r)
    {r : Except WalkFailure Walk} (hr : visitEach visit w paths = some r) :
  visitEach visit' w paths = some r
  := by
  induction paths generalizing w with
  | nil => apply hr
  | cons path paths ih =>
    rw [visitEach] at hr ⊢
    cases hpath : visit w path with
    | none =>
      rw [hpath] at hr
      cases hr
    | some e =>
      rw [hpath] at hr
      rw [h w path e hpath]
      cases e with
      | ok w' => apply ih hr
      | error f => apply hr

/-- A larger budget does not change how a visit ends. -/
theorem visit_mono (hle : budget ≤ budget') {r : Except WalkFailure Walk}
    (hr : d.visit home budget w path = some r) :
  d.visit home budget' w path = some r
  := by
  induction budget generalizing w path budget' r with
  | zero => cases hr
  | succ budget ih =>
    obtain ⟨rest, rfl⟩ := Nat.exists_eq_add_of_le' (Nat.zero_lt_succ budget |>.trans_le hle)
    rw [visit] at hr ⊢
    split at hr
    next => apply hr
    next => apply hr
    next w' imports _ =>
      obtain ⟨r', hr', rfl⟩ := Option.map_eq_some_iff.1 hr
      have hmore := visitEach_mono (fun _ _ _ => ih (Nat.le_of_succ_le_succ hle)) hr'
      simp [hmore]

theorem walk_mono (hle : budget ≤ budget') {r : Except WalkFailure Walk}
    (hr : d.walk home direct budget w = some r) :
  d.walk home direct budget' w = some r
  := by
  rw [walk] at hr ⊢
  split at hr
  next => apply hr
  next => apply visitEach_mono (fun _ _ _ => visit_mono hle) hr

/-- Nor does it change the outcome of discovery. -/
theorem discover_mono (hle : budget ≤ budget') {o : Outcome}
    (ho : d.discover tree budget = some o) :
  d.discover tree budget' = some o
  := by
  simp only [discover] at ho ⊢
  split at ho
  next hempty =>
    rw [if_pos hempty]
    apply ho
  next hempty =>
    obtain ⟨r, hr, rfl⟩ := Option.map_eq_some_iff.1 ho
    rw [if_neg hempty, walk_mono hle hr, Option.map_some]

/-! ### The calls of a walk -/

/-- Two calls, one before the other, by which nothing is done twice. -/
structure Apart (d : Discovery) (home : ProjectRoot) (c c' : Call) : Prop where
  colors : (c.after d home).ColorsStay c'.walk
  deduced : c.Deduces d home → c'.Deduces d home → c.path ≠ c'.path
  iterated : c.Iterates d home → c'.Iterates d home → c.path ≠ c'.path
  listed : ∀ root, c.Lists d home root → ¬ c'.Lists d home root

theorem Apart.of_keeps (h : Keeps (c.after d home) c'.walk) :
  d.Apart home c c'
  := by
  have hdeduced : c.Deduces d home → c'.Deduces d home → c.path ≠ c'.path := by
    intro hc hc' heq
    have hcolored := h.colors _ hc.colors.2
    rw [heq, SortedMap.contains_eq_isSome, hc'.colors.1] at hcolored
    cases hcolored
  use h.colors, hdeduced, fun hc hc' => hdeduced hc.deduces hc'.deduces
  intro root hc hc'
  have hlisted := h.checkouts _ hc.checkouts.2
  rw [SortedMap.contains_eq_isSome, hc'.checkouts.1] at hlisted
  cases hlisted

/-- When the workspace has finitely many checkouts, discovery returns, on any imports. In the course
of any walk, a call that goes on to deduce colors a package that had no color, no color is ever
removed, no package is deduced twice or has its imports iterated twice, and no project has its
directory listed twice with success. -/
theorem walk_expands_once (hroots : ∀ root, d.workspace.directory? root ≠ none → root ∈ roots) :
  (∃ o, ∀ budget, d.budget tree roots ≤ budget → d.discover tree budget = some o) ∧
    ∀ home direct budget w,
      (∀ c ∈ d.walkCalls home direct budget w,
        c.walk.ColorsStay (c.after d home) ∧
        (∀ r, d.walk home direct budget w = some r →
          (c.after d home).ColorsStay (lastWalk r)) ∧
        (c.Deduces d home → c.walk.colors.get? c.path = none ∧
          (c.after d home).colors.contains c.path = true)) ∧
      (d.walkCalls home direct budget w).Pairwise (d.Apart home)
  := by
  constructor
  · obtain ⟨o, -, ho, -, -⟩ := exists_discover hroots (Nat.le_refl _)
    use o
    intro budget hbudget
    apply discover_mono hbudget ho
  · intro home direct budget w
    obtain ⟨w', htraced⟩ := exists_traced_walk d home direct budget w
    constructor
    · intro c hc
      refine ⟨(c.keeps_after d home).colors, ?_, Call.Deduces.colors⟩
      intro r hr
      apply (htraced.ends r hr c hc).colors
    · apply htraced.ordered.imp Apart.of_keeps

theorem walk_expands_once_sample :
  (∀ root, Sample.discovery.workspace.directory? root ≠ none → root ∈ [Solver.Sample.alpha]) ∧
    (∃ o, ∀ budget, 3 ≤ budget →
      Sample.discovery.discover Solver.Sample.home budget = some o) ∧
    ∀ budget w, (Sample.discovery.walkCalls Solver.Sample.home.projectRoot
      (directImports Solver.Sample.home) budget w).Pairwise
        (Sample.discovery.Apart Solver.Sample.home.projectRoot)
  := by
  have hroots : ∀ root, Sample.discovery.workspace.directory? root ≠ none →
      root ∈ [Solver.Sample.alpha] := fun root => Sample.mem_of_directory
  have hbudget : Sample.discovery.budget Solver.Sample.home [Solver.Sample.alpha] ≤ 3 := by cbv
  obtain ⟨o, ho⟩ : ∃ o, ∀ budget,
      Sample.discovery.budget Solver.Sample.home [Solver.Sample.alpha] ≤ budget →
        Sample.discovery.discover Solver.Sample.home budget = some o :=
    (walk_expands_once hroots).1
  refine ⟨hroots, ⟨o, fun budget hle => ho budget (hbudget.trans hle)⟩, ?_⟩
  intro budget w
  obtain ⟨-, hcalls⟩ := @walk_expands_once Sample.discovery Solver.Sample.home _ hroots
  apply (hcalls _ _ budget w).2

end Discovery
end DepLock
