import DepLock.Proofs.Discovery.Consistent

/-!
# Entering a package

`Entry` lists what entering a package does to a consistent walk: a package that was seen, or that
belongs to the project itself, is passed over; one of a project without a usable checkout is
recorded; one that is missing in a usable checkout is not; and a usable one is recorded, and the walk
is to follow what it imports. Each keeps the walk consistent, and nothing is lost by it. `Enters`
lists what entering a package comes to when nothing is known of the walk.
-/

namespace DepLock.Discovery

variable {d : Discovery} {home root : ProjectRoot} {direct : List String} {path : String}
  {w w' : Walk} {c : Checkout} {next : Option (List String)}

/-! ### Checkouts -/

/-- Loading a project finds its usable checkout and no other. -/
theorem Sound.load_snd (h : d.Sound home direct w) (root : ProjectRoot) :
  (d.load w root).2 = d.checkoutAt root
  := by
  have hversion : (w.data.onDisk.get? root).or (d.workspace.version root).version?
      = (d.workspace.version root).version? := by
    cases hnoted : w.data.onDisk.get? root with
    | none => rfl
    | some v =>
      rw [h.onDisk root v hnoted]
      rfl
  unfold Discovery.load checkoutAt
  rw [hversion]
  cases d.workspace.directory? root with
  | none => rfl
  | some directory =>
    cases (d.workspace.version root).version? with
    | none => rfl
    | some version =>
      simp only
      cases d.lister directory root.text <;> rfl

/-- Loading a project keeps its checkout or marks the project, and touches neither colors nor
synchronizations. -/
theorem load_frame (d : Discovery) (w : Walk) (root : ProjectRoot) :
  (d.load w root).1.colors = w.colors ∧ (d.load w root).1.synced = w.synced ∧
    (d.load w root).1.data
      = (d.load w root).2.elim (w.data.markNotOnDisk root) (fun _ => w.data) ∧
    (d.load w root).1.checkouts
      = (d.load w root).2.elim w.checkouts (w.checkouts.insert root)
  := by
  unfold load
  cases d.workspace.directory? root with
  | none => exact ⟨rfl, rfl, rfl, rfl⟩
  | some directory =>
    cases (w.data.onDisk.get? root).or (d.workspace.version root).version? with
    | none => exact ⟨rfl, rfl, rfl, rfl⟩
    | some version =>
      simp only
      cases d.lister directory root.text with
      | error e => exact ⟨rfl, rfl, rfl, rfl⟩
      | ok tree => exact ⟨rfl, rfl, rfl, rfl⟩

/-- A project that is checked out at a known version and listed is loaded. -/
theorem load_of_listed {directory : String} {version : Version} {tree : PackageTree}
    (hdirectory : d.workspace.directory? root = some directory)
    (hversion : (w.data.onDisk.get? root).or (d.workspace.version root).version? = some version)
    (htree : d.lister directory root.text = .ok tree) :
  d.load w root = ({ w with checkouts := w.checkouts.insert root ⟨version, tree.importReach,
      (tree.reach { mains := true, tests := false, propagate := false }).2⟩ },
    some ⟨version, tree.importReach,
      (tree.reach { mains := true, tests := false, propagate := false }).2⟩)
  := by
  simp only [load, hdirectory, hversion, htree]
  rfl

/-- In a consistent walk, looking for the checkout of a project finds the usable one, and marks a
project that has none. -/
theorem Consistent.checkout (h : d.Consistent home direct w) (root : ProjectRoot) :
  ∃ v, d.checkout w root = (v, d.checkoutAt root) ∧ v.colors = w.colors ∧ v.synced = w.synced ∧
    v.data = (d.checkoutAt root).elim (w.data.markNotOnDisk root) (fun _ => w.data) ∧
    ∀ root' c, v.checkouts.get? root' = some c → d.checkoutAt root' = some c
  := by
  unfold Discovery.checkout
  split
  next hmarked =>
    -- the project is marked already, and marking it again would change nothing
    have honDisk := h.not_onDisk hmarked
    have hdata := ProjectData.markNotOnDisk_eq_self honDisk (h.no_rule honDisk) hmarked
    rw [h.unusable root hmarked]
    exact ⟨w, rfl, rfl, rfl, hdata.symm, h.checkouts⟩
  next =>
    split
    next c hc =>
      rw [h.checkouts root c hc]
      exact ⟨w, rfl, rfl, rfl, rfl, h.checkouts⟩
    next =>
      obtain ⟨hcolors, hsynced, hdata, hcheckouts⟩ := d.load_frame w root
      rw [h.load_snd root] at hdata hcheckouts
      refine ⟨_, Prod.ext rfl (h.load_snd root), hcolors, hsynced, hdata, ?_⟩
      intro root' c hc
      rw [hcheckouts] at hc
      cases hcheckout : d.checkoutAt root with
      | none =>
        rw [hcheckout] at hc
        apply h.checkouts root' c hc
      | some c' =>
        rw [hcheckout, Option.elim_some, SortedMap.get?_insert] at hc
        split at hc
        next heq =>
          subst heq
          cases hc
          apply hcheckout
        next => apply h.checkouts root' c hc

/-! ### Entering from any walk -/

/-- What entering a package comes to, whatever the walk. -/
inductive Enters (d : Discovery) (home : ProjectRoot) (w : Walk) (path : String) :
    Except WalkFailure (Walk × Option (List String)) → Prop where
  /-- The package was seen before. -/
  | seen : w.colors.get? path = some .black → Enters d home w path (.ok (w, none))
  /-- The walk is in the package. -/
  | cycle : w.colors.get? path = some .grey →
      Enters d home w path (.error ⟨.importCycle path, w⟩)
  /-- The package belongs to the project itself. -/
  | own : w.colors.get? path = none → home.contains path = true →
      Enters d home w path (.ok (w.paint path .black, none))
  /-- The project of the package is not known. -/
  | refused {cause : SourceError} : w.colors.get? path = none → home.contains path = false →
      d.sources.deduceRoot path = .error cause →
      Enters d home w path (.error ⟨.deduceRoot path cause, w.paint path .grey⟩)
  /-- There is no usable checkout of the project. -/
  | absent {root : ProjectRoot} {v : Walk} : w.colors.get? path = none →
      home.contains path = false → d.sources.deduceRoot path = .ok root →
      d.checkout ((w.paint path .grey).sync root) root = (v, none) →
      Enters d home w path (.ok ((v.record root path).paint path .black, none))
  /-- The package is missing in the checkout. -/
  | missing {root : ProjectRoot} {v : Walk} {c : Checkout} : w.colors.get? path = none →
      home.contains path = false → d.sources.deduceRoot path = .ok root →
      d.checkout ((w.paint path .grey).sync root) root = (v, some c) →
      Checkout.imports? c path = none → Enters d home w path (.ok (v.paint path .black, none))
  /-- The imports of the package are to be followed. -/
  | followed {root : ProjectRoot} {v : Walk} {c : Checkout} {imports : List String} :
      w.colors.get? path = none → home.contains path = false →
      d.sources.deduceRoot path = .ok root →
      d.checkout ((w.paint path .grey).sync root) root = (v, some c) →
      Checkout.imports? c path = some imports →
      Enters d home w path (.ok (Walk.record { v with data := { v.data with
        onDisk := if v.data.onDisk.contains root then v.data.onDisk
          else v.data.onDisk.insert root c.version } } root path, some imports))

theorem enters (d : Discovery) (home : ProjectRoot) (w : Walk) (path : String) :
  d.Enters home w path (d.enter home w path)
  := by
  unfold Discovery.enter deduce
  split
  next hblack => apply Enters.seen hblack
  next hgrey => apply Enters.cycle hgrey
  next hnone =>
    split
    next hhome => apply Enters.own hnone hhome
    next hhome =>
      rw [Bool.not_eq_true] at hhome
      cases hroot : d.sources.deduceRoot path with
      | error cause => apply Enters.refused hnone hhome hroot
      | ok root =>
        dsimp only
        split
        next v hv => apply Enters.absent hnone hhome hroot hv
        next v c hv =>
          split
          next himports => apply Enters.missing hnone hhome hroot hv himports
          next imports himports => apply Enters.followed hnone hhome hroot hv himports

/-! ### Entries -/

/-- What entering a package does, and what to follow from it. -/
inductive Entry (d : Discovery) (home : ProjectRoot) (w : Walk) (path : String) :
    Walk → Option (List String) → Prop where
  /-- The package was seen. -/
  | seen : w.colors.get? path = some .black → Entry d home w path w none
  /-- The package belongs to the project itself. -/
  | own {w' : Walk} : w.colors.get? path = none → home.contains path = true →
      w'.data = w.data → w'.colors = w.colors.insert path .black → w'.synced = w.synced →
      Entry d home w path w' none
  /-- The project of the package has no usable checkout. -/
  | unusable {w' : Walk} {root : ProjectRoot} : w.colors.get? path = none →
      home.contains path = false → d.sources.deduceRoot path = .ok root →
      d.checkoutAt root = none → w'.data = (w.data.markNotOnDisk root).record root path →
      w'.colors = w.colors.insert path .black → w'.synced = (w.sync root).synced →
      Entry d home w path w' none
  /-- The package is missing in the usable checkout of its project. -/
  | missing {w' : Walk} {root : ProjectRoot} {c : Checkout} : w.colors.get? path = none →
      home.contains path = false → d.sources.deduceRoot path = .ok root →
      d.checkoutAt root = some c → c.reach.contains path = false → w'.data = w.data →
      w'.colors = w.colors.insert path .black → w'.synced = (w.sync root).synced →
      Entry d home w path w' none
  /-- The package is usable. -/
  | usable {w' : Walk} {root : ProjectRoot} {c : Checkout} {e : ReachEntry} :
      w.colors.get? path = none → home.contains path = false →
      d.sources.deduceRoot path = .ok root → d.checkoutAt root = some c →
      c.reach.get? path = some e →
      w'.data = ProjectData.record { w.data with
        onDisk := w.data.onDisk.insert root c.version } root path →
      w'.colors = w.colors.insert path .grey → w'.synced = (w.sync root).synced →
      Entry d home w path w' (some (e.external.filter fun i => !ImportPath.isStandard i))

/-- Noting the version of a usable checkout, unless one is noted, is noting it. -/
theorem Sound.note_version (h : d.Sound home direct w) (hc : d.checkoutAt root = some c) :
  (if w.data.onDisk.contains root then w.data.onDisk else w.data.onDisk.insert root c.version)
    = w.data.onDisk.insert root c.version
  := by
  split
  next hnoted =>
    obtain ⟨v, hv⟩ := SortedMap.contains_iff.1 hnoted
    have hversion := h.onDisk root v hv
    rw [version_of_checkoutAt hc] at hversion
    cases hversion
    rw [SortedMap.insert_eq_self hv]
  next => rfl

/-- Entering a reached package succeeds in one of these ways, and no checkout is loaded but a usable
one. -/
theorem Consistent.entry (h : d.Consistent home direct w) (hpath : d.Reached home direct path)
    (hw' : d.enter home w path = .ok (w', next)) :
  d.Entry home w path w' next ∧
    ∀ root c, w'.checkouts.get? root = some c → d.checkoutAt root = some c
  := by
  have henters := d.enters home w path
  rw [hw'] at henters
  -- where the project is known, its checkout is looked up while the package is grey
  have hlook {root : ProjectRoot} {v : Walk} {found : Option Checkout}
      (hhome : home.contains path = false) (hroot : d.sources.deduceRoot path = .ok root)
      (hv : d.checkout ((w.paint path .grey).sync root) root = (v, found)) :
      found = d.checkoutAt root ∧ v.colors = w.colors.insert path .grey ∧
        v.synced = (w.sync root).synced ∧
        v.data = found.elim (w.data.markNotOnDisk root) (fun _ => w.data) ∧
        ∀ r c, v.checkouts.get? r = some c → d.checkoutAt r = some c := by
    have huses : d.Uses home direct root path := ⟨hpath, hhome, hroot⟩
    obtain ⟨v', hv', hcolors, hsynced, hdata, hcheckouts⟩ :=
      ((h.paint path .grey).sync huses).checkout root
    rw [hv] at hv'
    cases hv'
    rw [Walk.colors_sync, Walk.paint] at hcolors
    rw [Walk.synced_sync, Walk.paint] at hsynced
    rw [Walk.data_sync, Walk.paint] at hdata
    exact ⟨rfl, hcolors, by rw [hsynced, Walk.synced_sync], hdata, hcheckouts⟩
  cases henters with
  | seen hblack => exact ⟨.seen hblack, h.checkouts⟩
  | own hcolor hhome => exact ⟨.own hcolor hhome rfl rfl rfl, h.checkouts⟩
  | absent hcolor hhome hroot hv =>
    obtain ⟨hc, hcolors, hsynced, hdata, hcheckouts⟩ := hlook hhome hroot hv
    refine ⟨.unusable hcolor hhome hroot hc.symm ?_ ?_ ?_, hcheckouts⟩
    · simp [Walk.record, Walk.paint, hdata]
    · simp [Walk.record, Walk.paint, hcolors, SortedMap.insert_insert]
    · simp [Walk.record, Walk.paint, hsynced]
  | missing hcolor hhome hroot hv himports =>
    obtain ⟨hc, hcolors, hsynced, hdata, hcheckouts⟩ := hlook hhome hroot hv
    have hmissing := (imports?_eq_none_iff hc.symm).1 himports
    refine ⟨.missing hcolor hhome hroot hc.symm hmissing ?_ ?_ ?_, hcheckouts⟩
    · simp [Walk.paint, hdata]
    · simp [Walk.paint, hcolors, SortedMap.insert_insert]
    · simp [Walk.paint, hsynced]
  | followed hcolor hhome hroot hv himports =>
    obtain ⟨hc, hcolors, hsynced, hdata, hcheckouts⟩ := hlook hhome hroot hv
    obtain ⟨e, he, rfl⟩ := (imports?_eq_some_iff hc.symm).1 himports
    refine ⟨.usable hcolor hhome hroot hc.symm he ?_ ?_ ?_, hcheckouts⟩
    · simp [Walk.record, hdata, h.toSound.note_version hc.symm]
    · simp [Walk.record, hcolors]
    · simp [Walk.record, hsynced]

/-- A new package of a usable checkout is recorded, and the walk goes on with its imports. -/
theorem enter_of_imports {imports : List String} (hcolor : w.colors.get? path = none)
    (hhome : home.contains path = false) (hroot : d.sources.deduceRoot path = .ok root)
    (hc : d.checkout ((w.paint path .grey).sync root) root = (w', some c))
    (himports : Checkout.imports? c path = some imports) :
  d.enter home w path = .ok (Walk.record { w' with data := { w'.data with
      onDisk := if w'.data.onDisk.contains root then w'.data.onDisk
        else w'.data.onDisk.insert root c.version } } root path, some imports)
  := by
  simp [enter, deduce, hcolor, hhome, hroot, hc, himports]

namespace Entry

/-- Nothing is lost by entering a package. -/
theorem grows (h : d.Entry home w path w' next) :
  Grows w w'
  := by
  cases h with
  | seen => apply Grows.refl
  | own hnew _ hdata hcolors hsynced =>
    apply Grows.of_new hnew hcolors
    · simp [hsynced]
    · simp [hdata]
    · simp [hdata]
    · simp [hdata]
  | unusable hnew _ _ _ hdata hcolors hsynced =>
    apply Grows.of_new hnew hcolors
    · intro root' hroot'
      rw [hsynced]
      apply Walk.mem_sync.2 (.inr hroot')
    · intro root' path' hpath'
      rw [hdata, ProjectData.records_record]
      apply Or.inr hpath'
    · intro root' hroot'
      simp [hdata, ProjectData.markNotOnDisk, hroot']
    · simp [hdata, ProjectData.markNotOnDisk]
  | missing hnew _ _ _ _ hdata hcolors hsynced =>
    apply Grows.of_new hnew hcolors
    · intro root' hroot'
      rw [hsynced]
      apply Walk.mem_sync.2 (.inr hroot')
    · simp [hdata]
    · simp [hdata]
    · simp [hdata]
  | usable hnew _ _ _ _ hdata hcolors hsynced =>
    apply Grows.of_new hnew hcolors
    · intro root' hroot'
      rw [hsynced]
      apply Walk.mem_sync.2 (.inr hroot')
    · intro root' path' hpath'
      rw [hdata, ProjectData.records_record]
      apply Or.inr hpath'
    · simp [hdata]
    · simp [hdata]

end Entry

/-- A walk in which a project without a usable checkout is marked and a package of it recorded is
consistent. -/
theorem Consistent.record_unusable (h : d.Consistent home direct w)
    (huses : d.Uses home direct root path) (hnone : d.checkoutAt root = none)
    (hcheckouts : ∀ r c, w'.checkouts.get? r = some c → d.checkoutAt r = some c)
    (hdata : w'.data = (w.data.markNotOnDisk root).record root path)
    (hdispatched : ∀ r ∈ w'.synced, ∃ path, d.Uses home direct r path) :
  d.Consistent home direct w'
  where
  toSound := by
    apply ((h.toSound.markNotOnDisk root).record huses).of_eq hcheckouts
    · rw [hdata]
      rfl
    · rw [hdata]
      rfl
  justified := by
    intro root' path' hrecords
    rw [hdata, ProjectData.records_record] at hrecords
    rcases hrecords with ⟨rfl, rfl⟩ | hrecords
    · apply Or.inr (.inl hnone)
    · apply h.justified root' path' hrecords
  unusable := by
    intro root' hroot'
    rw [hdata, ProjectData.notOnDisk_record, ProjectData.markNotOnDisk, SortedSet.contains_add,
      Bool.or_eq_true, decide_eq_true_iff] at hroot'
    rcases hroot' with rfl | hroot'
    · apply hnone
    · apply h.unusable root' hroot'
  disjoint := by
    intro root' hroot'
    have hdisjoint := h.disjoint root'
    simp only [hdata, ProjectData.onDisk_record, ProjectData.notOnDisk_record,
      ProjectData.markNotOnDisk, SortedMap.contains_erase, SortedSet.contains_add] at hroot' ⊢
    grind
  located := by
    intro root'
    have hlocated := h.located root'
    simp only [hdata, ProjectData.contains_dependencies_record, ProjectData.onDisk_record,
      ProjectData.notOnDisk_record, ProjectData.markNotOnDisk, SortedMap.contains_erase,
      SortedSet.contains_add]
    grind
  directly := by
    intro root' hroot'
    rw [hdata] at hroot' ⊢
    obtain ⟨hdependency, hdirect⟩ := h.directly root' hroot'
    simp [ProjectData.markNotOnDisk, hdependency, hdirect]
  rules := by
    intro root'
    have hrules := h.rules root'
    simp only [hdata, ProjectData.constraints_record, ProjectData.direct_record,
      ProjectData.onDisk_record, ProjectData.markNotOnDisk, SortedMap.get?_erase]
    by_cases heq : root' = root
    · simp [heq]
    · simp [heq, hrules]
  dispatched := hdispatched

/-- The version of a usable checkout is noted if the project is imported directly. -/
theorem Consistent.noted_of_direct (h : d.Consistent home direct w)
    (hdirect : w.data.direct.contains root = true) (hc : d.checkoutAt root = some c) :
  w.data.onDisk.get? root = some c.version
  := by
  have hlocated := h.located root
  rw [(h.directly root hdirect).1, h.not_marked hc, Bool.or_false] at hlocated
  obtain ⟨v, hv⟩ := SortedMap.contains_iff.1 hlocated.symm
  have hversion := h.onDisk root v hv
  rw [version_of_checkoutAt hc] at hversion
  cases hversion
  apply hv

/-- A walk in which the version of a usable checkout is noted and a usable package of it recorded is
consistent. -/
theorem Consistent.record_usable (h : d.Consistent home direct w)
    (huses : d.Uses home direct root path) (hc : d.checkoutAt root = some c)
    (husable : d.Usable path)
    (hcheckouts : ∀ r c, w'.checkouts.get? r = some c → d.checkoutAt r = some c)
    (hdata : w'.data = ProjectData.record { w.data with
      onDisk := w.data.onDisk.insert root c.version } root path)
    (hdispatched : ∀ r ∈ w'.synced, ∃ path, d.Uses home direct r path) :
  d.Consistent home direct w'
  where
  toSound := by
    apply ((h.toSound.note (version_of_checkoutAt hc)).record huses).of_eq hcheckouts
    · rw [hdata]
      rfl
    · rw [hdata]
      rfl
  justified := by
    intro root' path' hrecords
    rw [hdata, ProjectData.records_record] at hrecords
    rcases hrecords with ⟨rfl, rfl⟩ | hrecords
    · apply Or.inr (.inr husable)
    · apply h.justified root' path' hrecords
  unusable := by
    rw [hdata]
    apply h.unusable
  disjoint := by
    intro root' hroot'
    rw [hdata, ProjectData.onDisk_record, SortedMap.contains_insert, Bool.or_eq_true,
      decide_eq_true_iff] at hroot'
    rw [hdata, ProjectData.notOnDisk_record]
    rcases hroot' with rfl | hroot'
    · apply h.not_marked hc
    · apply h.disjoint root' hroot'
  located := by
    intro root'
    have hlocated := h.located root'
    simp only [hdata, ProjectData.contains_dependencies_record, ProjectData.onDisk_record,
      ProjectData.notOnDisk_record, SortedMap.contains_insert]
    grind
  directly := by
    intro root' hroot'
    rw [hdata] at hroot' ⊢
    obtain ⟨hdependency, hdirect⟩ := h.directly root' hroot'
    simp [hdependency, hdirect]
  rules := by
    intro root'
    have hrules := h.rules root'
    simp only [hdata, ProjectData.constraints_record, ProjectData.direct_record,
      ProjectData.onDisk_record]
    by_cases hdirect : w.data.direct.contains root' = true
    · by_cases heq : root' = root
      · subst heq
        rw [SortedMap.insert_eq_self (h.noted_of_direct hdirect hc), hrules]
      · rw [SortedMap.get?_insert_of_ne _ _ heq, hrules]
    · simp [hrules, hdirect]
  dispatched := hdispatched

/-- Whether a package has been dealt with as far as its project goes: the project is synchronized,
and the package is recorded if the project has no usable checkout or the package is usable. -/
def Entered (d : Discovery) (w : Walk) (path : String) : Prop :=
  ∃ root, d.sources.deduceRoot path = .ok root ∧ root ∈ w.synced ∧
    (d.checkoutAt root = none →
      w.data.notOnDisk.contains root = true ∧ w.data.Records root path) ∧
    (d.Usable path → w.data.Records root path)

theorem Entered.mono (h : d.Entered w path) (hgrows : Grows w w') :
  d.Entered w' path
  := by
  obtain ⟨root, hroot, hsynced, hnone, husable⟩ := h
  refine ⟨root, hroot, hgrows.synced hsynced, ?_, hgrows.records ∘ husable⟩
  intro hcheckout
  obtain ⟨hmarked, hrecords⟩ := hnone hcheckout
  exact ⟨hgrows.notOnDisk hmarked, hgrows.records hrecords⟩

/-- Only a package that can be reached in the usable checkout of its project is usable. -/
theorem Usable.reach (h : d.Usable path) (hroot : d.sources.deduceRoot path = .ok root) :
  ∃ c, d.checkoutAt root = some c ∧ c.reach.contains path = true
  := by
  obtain ⟨root', c, hroot', hc, hreach⟩ := h
  rw [hroot] at hroot'
  cases hroot'
  exact ⟨c, hc, hreach⟩

theorem Imports.usable {path' : String} (h : d.Imports path path') :
  d.Usable path
  := by
  obtain ⟨root, c, e, hroot, hc, he, -⟩ := h
  exact ⟨root, c, hroot, hc, SortedMap.contains_of_get? he⟩

namespace Entry

/-- Entering a package keeps a walk consistent. -/
theorem consistent (h : d.Entry home w path w' next) (hw : d.Consistent home direct w)
    (hcheckouts : ∀ r c, w'.checkouts.get? r = some c → d.checkoutAt r = some c)
    (hpath : d.Reached home direct path) :
  d.Consistent home direct w'
  := by
  have hdispatched : ∀ {root}, d.Uses home direct root path → w'.synced = (w.sync root).synced →
      ∀ r ∈ w'.synced, ∃ path, d.Uses home direct r path := by
    intro root huses hsynced
    rw [hsynced]
    apply (hw.sync huses).dispatched
  cases h with
  | seen => apply hw
  | own _ _ hdata _ hsynced =>
    apply hw.of_data_eq hcheckouts hdata
    rw [hsynced]
    apply hw.dispatched
  | unusable _ hhome hroot hnone hdata _ hsynced =>
    have huses : d.Uses home direct _ path := ⟨hpath, hhome, hroot⟩
    apply hw.record_unusable huses hnone hcheckouts hdata (hdispatched huses hsynced)
  | missing _ hhome hroot _ _ hdata _ hsynced =>
    apply hw.of_data_eq hcheckouts hdata (hdispatched ⟨hpath, hhome, hroot⟩ hsynced)
  | usable _ hhome hroot hc he hdata _ hsynced =>
    have huses : d.Uses home direct _ path := ⟨hpath, hhome, hroot⟩
    have husable : d.Usable path := ⟨_, _, hroot, hc, SortedMap.contains_of_get? he⟩
    apply hw.record_usable huses hc husable hcheckouts hdata (hdispatched huses hsynced)

/-- A package outside the project itself has been dealt with once it is entered for the first
time. -/
theorem entered (h : d.Entry home w path w' next) (hcolor : w.colors.get? path = none)
    (hhome : home.contains path = false) :
  d.Entered w' path
  := by
  have hdispatched : ∀ {root}, w'.synced = (w.sync root).synced → root ∈ w'.synced := by
    intro root hsynced
    rw [hsynced]
    apply Walk.mem_sync.2 (.inl rfl)
  cases h with
  | seen hblack =>
    rw [hcolor] at hblack
    cases hblack
  | own _ hown =>
    rw [hhome] at hown
    cases hown
  | @unusable _ root _ _ hroot hnone hdata _ hsynced =>
    have hrecords : w'.data.Records root path := by
      rw [hdata, ProjectData.records_record]
      apply Or.inl ⟨rfl, rfl⟩
    have hmarked : w'.data.notOnDisk.contains root = true := by
      simp [hdata, ProjectData.markNotOnDisk]
    exact ⟨root, hroot, hdispatched hsynced, fun _ => ⟨hmarked, hrecords⟩, fun _ => hrecords⟩
  | @missing _ root _ _ _ hroot hc hmissing _ _ hsynced =>
    refine ⟨root, hroot, hdispatched hsynced, by simp [hc], ?_⟩
    intro husable
    obtain ⟨c, hc', hreach⟩ := husable.reach hroot
    rw [hc] at hc'
    cases hc'
    rw [hmissing] at hreach
    cases hreach
  | @usable _ root _ _ _ _ hroot hc _ hdata _ hsynced =>
    have hrecords : w'.data.Records root path := by
      rw [hdata, ProjectData.records_record]
      apply Or.inl ⟨rfl, rfl⟩
    exact ⟨root, hroot, hdispatched hsynced, by simp [hc], fun _ => hrecords⟩

/-- What is to be visited next is what is followed from the package. -/
theorem mem_imports_iff {imports : List String} (h : d.Entry home w path w' (some imports))
    (q : String) :
  q ∈ imports ↔ d.Follows home path q
  := by
  cases h with
  | usable _ hhome hroot hc he _ _ _ =>
    rw [List.mem_filter, Bool.not_eq_true']
    constructor
    · rintro ⟨hexternal, hstandard⟩
      exact ⟨hhome, _, _, _, hroot, hc, he, hexternal, hstandard⟩
    · rintro ⟨-, _, _, _, hroot', hc', he', hexternal, hstandard⟩
      rw [hroot] at hroot'
      cases hroot'
      rw [hc] at hc'
      cases hc'
      rw [he] at he'
      cases he'
      exact ⟨hexternal, hstandard⟩

end Entry

/-- Entering a package fails on one that the walk is in, and on one whose project cannot be
deduced. No project is dispatched by it. -/
theorem error_of_enter {f : WalkFailure} (h : d.enter home w path = .error f) :
  f.walk.synced = w.synced ∧
    ((w.colors.get? path = some .grey ∧ f.error = .importCycle path) ∨
      (home.contains path = false ∧ ∃ cause, d.sources.deduceRoot path = .error cause ∧
        f.error = .deduceRoot path cause))
  := by
  have henters := d.enters home w path
  rw [h] at henters
  cases henters with
  | cycle hgrey => exact ⟨rfl, .inl ⟨hgrey, rfl⟩⟩
  | refused _ hhome hcause => exact ⟨rfl, .inr ⟨hhome, _, hcause, rfl⟩⟩

end DepLock.Discovery
