import DepLock.Manifest.Basic
import DepLock.Proofs.Package.Closure
import DepLock.Proofs.Text.Affix

/-!
# Ignoring is removing

An ignore list hides packages and imports from a search. What is left is what a search finds in the
tree from which they have been taken out: the same packages, each with the same imports, and the
same faults (`PackageTree.reach_eq_reach_without`). An ignored package is thus not missing to those
that import it.
-/

namespace DepLock

/-- A pattern covers itself, and what begins like it if it ends in a star. -/
theorem patternCovers_iff {pattern path : String} :
  patternCovers pattern path = true ↔
    path = pattern ∨ ∃ beginning, pattern = beginning ++ "*" ∧ beginning.toList <+: path.toList
  := by
  unfold patternCovers
  split
  next beginning hpattern =>
    obtain rfl := Text.stripSuffix?_eq_some_iff.1 hpattern
    rw [Text.startsWith_iff]
    constructor
    · intro hprefix
      exact .inr ⟨beginning, rfl, hprefix⟩
    · rintro (rfl | ⟨beginning', heq, hprefix⟩)
      · simp
      · rw [String.append_left_inj] at heq
        rwa [heq]
  next hpattern =>
    rw [decide_eq_true_eq]
    constructor
    · exact .inl
    · rintro (rfl | ⟨beginning, heq, -⟩)
      · rfl
      · rw [Text.stripSuffix?_eq_some_iff.2 heq] at hpattern
        cases hpattern

/-- A package without the imports that are dropped. -/
def Package.without (p : Package) (drops : String → Bool) : Package :=
  { p with
    imports := p.imports.filter fun path => !drops path
    testImports := p.testImports.filter fun path => !drops path }

namespace PackageTree

variable {t t' : PackageTree} {o : ReachOptions} {start path : String}

/-- A tree without the packages at dropped paths, the others without the imports that are
dropped. -/
def without (t : PackageTree) (drops : String → Bool) : PackageTree :=
  ⟨t.root, t.packages.filterMap fun path r =>
    if drops path then none else some (r.map (·.without drops))⟩

/-! ### The tree that is left -/

theorem isInternal_without (t : PackageTree) (drops : String → Bool) :
  (t.without drops).isInternal = t.isInternal
  := rfl

theorem get?_without (t : PackageTree) (drops : String → Bool) (path : String) :
  (t.without drops).packages.get? path =
    (t.packages.get? path).bind fun r =>
      if drops path then none else some (r.map (·.without drops))
  := SortedMap.get?_filterMap _ _ _

/-- Without patterns nothing is ignored. -/
theorem isIgnoredBy_nil (path : String) :
  isIgnoredBy [] path = false
  := rfl

/-- The imports that count are those that are left. -/
theorem countedImports_without (o : ReachOptions) (path : String) (p : Package) :
  countedImports { o with ignored := [] } path (p.without (isIgnoredBy o.ignored))
    = countedImports o path p
  := by
  unfold countedImports Package.without
  cases o.tests with
  | true => simp [isIgnoredBy, List.filter_filter, Bool.and_comm]
  | false => simp [isIgnoredBy, List.filter_filter, Bool.and_comm]

/-- The usable packages are those that are left and usable. -/
theorem usable?_without (o : ReachOptions) (path : String) (r : Except PackageFault Package) :
  ((if isIgnoredBy o.ignored path then none
      else some (r.map (·.without (isIgnoredBy o.ignored)))).bind
      (usable? { o with ignored := [] } path))
    = (usable? o path r).map (·.without (isIgnoredBy o.ignored))
  := by
  cases r with
  | error fault => cases hignored : isIgnoredBy o.ignored path <;> rfl
  | ok p =>
    cases hignored : isIgnoredBy o.ignored path with
    | true => simp [usable?, hignored]
    | false =>
      have hmain : (p.without (isIgnoredBy o.ignored)).isMain = p.isMain := rfl
      simp only [Bool.false_eq_true, if_false, Option.bind_some, Except.map, usable?, hignored,
        hmain, isIgnoredBy_nil, Bool.false_or]
      split <;> rfl

/-- The packages that are left have the direct imports of those that count. -/
theorem edges_without (t : PackageTree) (o : ReachOptions) :
  (t.without (isIgnoredBy o.ignored)).edges { o with ignored := [] } = t.edges o
  := by
  apply SortedMap.ext_get?
  intro path
  rw [edges, edges, SortedMap.get?_filterMap, SortedMap.get?_filterMap, get?_without,
    isInternal_without, Option.bind_assoc]
  congr 1
  funext r
  refine Option.map_bind.symm.trans ?_
  rw [usable?_without, Option.map_map]
  simp only [Function.comp_def, countedImports_without]

theorem ownFaults_without (t : PackageTree) (o : ReachOptions) :
  (t.without (isIgnoredBy o.ignored)).ownFaults { o with ignored := [] } = t.ownFaults o
  := by
  apply SortedMap.ext_get?
  intro path
  rw [ownFaults, ownFaults, SortedMap.get?_filterMap, SortedMap.get?_filterMap, get?_without,
    Option.bind_assoc]
  congr 1
  funext r
  cases isIgnoredBy o.ignored path with
  | true => cases r <;> rfl
  | false => cases r <;> rfl

/-- A path that is not dropped passes on the same fault. -/
theorem passedFault?_without {drops : String → Bool} (h : drops path = false) :
  (t.without drops).passedFault? path = t.passedFault? path
  := by
  rw [passedFault?, passedFault?, get?_without, h]
  cases t.packages.get? path with
  | none => rfl
  | some r => cases r <;> rfl

/-! ### Searches of it -/

theorem kept_of_edges {e : ReachEntry} (he : (t.edges o).get? path = some e) :
  isIgnoredBy o.ignored path = false ∧ ∀ path' ∈ e.internal, isIgnoredBy o.ignored path' = false
  := by
  obtain ⟨p, hp, rfl⟩ := get?_edges_eq_some_iff.1 he
  use hp.kept
  intro path' hpath'
  obtain ⟨-, hkept, -⟩ := mem_countedImports.1 (List.mem_filter.1 hpath').1
  apply hkept

/-- A search that comes only to paths which pass on the same faults in two trees ends in the same
way in both. -/
theorem Search.run_congr_tree {edges : SortedMap String ReachEntry} {propagate : Bool}
    {P : String → Prop} (hfault : ∀ path, P path → t.passedFault? path = t'.passedFault? path)
    (hedges : ∀ path e, edges.get? path = some e → ∀ path' ∈ e.internal, P path') {s : Search}
    (hs : ∀ path ∈ s.stack, P path) :
  s.run t edges propagate = s.run t' edges propagate
  := by
  induction s using Search.run.induct t edges propagate with
  | case1 s hstack => rw [run_of_nil hstack, run_of_nil hstack]
  | case2 s path stack hstack hnone fault hpassed =>
    have hpath : P path := hs path (by simp [hstack])
    rw [run_of_fault hstack hnone hpassed]
    rw [hfault path hpath] at hpassed
    rw [run_of_fault hstack hnone hpassed]
  | case3 s path stack hstack hnone hpassed ih =>
    have hpath : P path := hs path (by simp [hstack])
    rw [run_of_none hstack hnone hpassed]
    rw [hfault path hpath] at hpassed
    rw [run_of_none hstack hnone hpassed]
    apply ih
    intro path' hpath'
    apply hs path'
    rw [hstack]
    exact List.mem_cons_of_mem _ hpath'
  | case4 s path stack hstack e he s' ih =>
    rw [run_of_some hstack he, run_of_some hstack he]
    apply ih
    intro path' hpath'
    rcases mem_stack_foldl_visit.1 hpath' with hpath' | ⟨hpath', -⟩
    · apply hs path'
      rw [hstack]
      exact List.mem_cons_of_mem _ hpath'
    · apply hedges path e he path' hpath'

/-- A search comes to no ignored path, so it does not tell whether these have been taken out. -/
theorem run_without (hstart : isIgnoredBy o.ignored start = false) (propagate : Bool) :
  (searchFrom (t.edges o) start).run (t.without (isIgnoredBy o.ignored)) (t.edges o) propagate
    = (searchFrom (t.edges o) start).run t (t.edges o) propagate
  := by
  apply Search.run_congr_tree (P := fun path => isIgnoredBy o.ignored path = false)
  · intro path hpath
    apply passedFault?_without hpath
  · intro path e he
    apply (kept_of_edges he).2
  · intro path hpath
    obtain rfl := List.mem_singleton.1 hpath
    apply hstart

/-- What is reached is what is reached in the tree without what is ignored. -/
theorem reach_without (t : PackageTree) (o : ReachOptions) :
  (t.without (isIgnoredBy o.ignored)).reach { o with ignored := [] } = t.reach o
  := by
  have houtcomes : ((t.edges o).mapValues fun start _ =>
      (searchFrom (t.edges o) start).run (t.without (isIgnoredBy o.ignored)) (t.edges o)
        o.propagate)
      = (t.edges o).mapValues fun start _ =>
        (searchFrom (t.edges o) start).run t (t.edges o) o.propagate := by
    apply SortedMap.mapValues_congr
    intro start e he
    apply run_without (kept_of_edges he).1
  simp only [reach, edges_without, ownFaults_without, houtcomes]

/-! ### What is ignored occurs nowhere -/

theorem Uses.kept {path' : String} (h : t.Uses o path path') :
  isIgnoredBy o.ignored path' = false
  := by
  obtain ⟨-, -, -, hkept, -⟩ := h
  apply hkept

theorem Within.kept (h : t.Within o start path) :
  isIgnoredBy o.ignored path = false
  := by
  cases h with
  | single hstep => apply hstep.1.kept
  | tail _ hstep => apply hstep.1.kept

/-- A package that is in a reach map or at fault is not ignored. -/
theorem kept_of_contains
    (h : (t.reach o).1.contains path = true ∨ (t.reach o).2.contains path = true) :
  isIgnoredBy o.ignored path = false
  := by
  rcases h with h | h
  · obtain ⟨⟨p, hp⟩, -⟩ := contains_reach_iff.1 h
    apply hp.kept
  · obtain ⟨fault, hown | ⟨-, ⟨p, hp⟩, -⟩⟩ := contains_faults_iff.1 h
    · apply hown.2
    · apply hp.kept

/-- What a reach map lists is not ignored. -/
theorem Lists.kept {e : ReachEntry} (h : t.Lists o start e)
    (hpath : path ∈ e.internal ∨ path ∈ e.external) :
  isIgnoredBy o.ignored path = false
  := by
  rcases hpath with hpath | hpath
  · obtain ⟨hwithin, -⟩ := (h.mem_internal path).1 hpath
    apply hwithin.kept
  · obtain ⟨-, path', -, huses⟩ := (h.mem_external path).1 hpath
    apply huses.kept

/-! ### More patterns -/

section Enlarged

variable {ignored : List String}

/-- What a longer list does not ignore, a shorter one does not ignore either. -/
theorem kept_of_subset (h : o.ignored ⊆ ignored) (hkept : isIgnoredBy ignored path = false) :
  isIgnoredBy o.ignored path = false
  := by
  rw [isIgnoredBy, List.any_eq_false] at hkept ⊢
  intro pattern hpattern
  apply hkept pattern (h hpattern)

theorem Usable.of_subset {p : Package} (h : o.ignored ⊆ ignored)
    (hp : t.Usable { o with ignored } path p) :
  t.Usable o path p
  := ⟨hp.present, kept_of_subset h hp.kept, hp.counted⟩

theorem Uses.of_subset {path' : String} (h : o.ignored ⊆ ignored)
    (huses : t.Uses { o with ignored } path path') :
  t.Uses o path path'
  := by
  obtain ⟨p, hp, himports, hkept, hne⟩ := huses
  exact ⟨p, hp.of_subset h, himports, kept_of_subset h hkept, hne⟩

theorem Within.of_subset (h : o.ignored ⊆ ignored)
    (hwithin : t.Within { o with ignored } start path) :
  t.Within o start path
  := by
  apply Relation.TransGen.mono _ _ _ hwithin
  intro path path' hstep
  exact ⟨hstep.1.of_subset h, hstep.2⟩

/-- Where faults are not passed on, all usable packages are in the reach map. -/
theorem contains_reach_of_usable {p : Package} (hpropagate : o.propagate = false)
    (hp : t.Usable o start p) :
  (t.reach o).1.contains start = true
  := by
  apply contains_reach_iff.2
  use ⟨p, hp⟩
  rintro fault ⟨hpassed, -⟩
  rw [hpropagate] at hpassed
  cases hpassed

/-- Where faults are not passed on, what is listed with more patterns is listed with fewer. -/
theorem Lists.of_subset {e e' : ReachEntry} (h : o.ignored ⊆ ignored)
    (he : t.Lists { o with ignored } start e) (he' : t.Lists o start e') :
  e.internal ⊆ e'.internal ∧ e.external ⊆ e'.external
  := by
  constructor
  · intro path hpath
    obtain ⟨hwithin, hne⟩ := (he.mem_internal path).1 hpath
    exact (he'.mem_internal path).2 ⟨hwithin.of_subset h, hne⟩
  · intro path hpath
    obtain ⟨hleaves, path', hreached, huses⟩ := (he.mem_external path).1 hpath
    apply (he'.mem_external path).2
    use hleaves, path'
    use hreached.imp id (Within.of_subset h)
    apply huses.of_subset h

end Enlarged

/-- To search a tree with an ignore list is to search the tree without the packages and imports that
a manifest with this list ignores. Such paths occur nowhere in the outcome. Where faults are not
passed on, a longer list adds no packages, no imports and no faults. -/
theorem reach_eq_reach_without (t : PackageTree) (o : ReachOptions) :
  let m : Manifest := { ignored := o.ignored }
  (∀ path, m.ignores path = true ↔ ∃ pattern ∈ o.ignored,
    path = pattern ∨ ∃ beginning, pattern = beginning ++ "*" ∧
      beginning.toList <+: path.toList) ∧
  t.reach o = (t.without m.ignores).reach { o with ignored := [] } ∧
  (∀ path, m.ignores path = true →
    (t.reach o).1.contains path = false ∧ (t.reach o).2.contains path = false ∧
      ∀ start e, (t.reach o).1.get? start = some e → path ∉ e.internal ∧ path ∉ e.external) ∧
  (o.propagate = false → ∀ ignored, o.ignored ⊆ ignored →
    (∀ start e, (t.reach { o with ignored }).1.get? start = some e →
      ∃ e', (t.reach o).1.get? start = some e' ∧
        e.internal ⊆ e'.internal ∧ e.external ⊆ e'.external) ∧
    ∀ path, (t.reach { o with ignored }).2.contains path = true →
      (t.reach o).2.contains path = true)
  := by
  intro m
  refine ⟨?ignores, (reach_without t o).symm, ?nowhere, ?enlarged⟩
  case ignores =>
    intro path
    simp only [m, Manifest.ignores, isIgnoredBy, List.any_eq_true, patternCovers_iff]
  case nowhere =>
    intro path hignored
    have hnot : ¬ isIgnoredBy o.ignored path = false := ne_false_of_eq_true hignored
    refine ⟨?_, ?_, ?_⟩
    · by_contra hreach
      apply hnot (kept_of_contains (.inl (Bool.eq_true_of_not_eq_false hreach)))
    · by_contra hfault
      apply hnot (kept_of_contains (.inr (Bool.eq_true_of_not_eq_false hfault)))
    · intro start e he
      have hlists := lists_of_run (run_of_reach he).2
      constructor
      · intro hpath
        apply hnot (hlists.kept (.inl hpath))
      · intro hpath
        apply hnot (hlists.kept (.inr hpath))
  case enlarged =>
    intro hpropagate ignored hsubset
    constructor
    · intro start e he
      obtain ⟨⟨p, hp⟩, -⟩ := contains_reach_iff.1 (SortedMap.contains_of_get? he)
      obtain ⟨e', he'⟩ := SortedMap.contains_iff.1 <|
        contains_reach_of_usable hpropagate (hp.of_subset hsubset)
      use e', he'
      apply Lists.of_subset hsubset (lists_of_run (run_of_reach he).2)
        (lists_of_run (run_of_reach he').2)
    · intro path hpath
      obtain ⟨fault, hown | ⟨hpassed, -⟩⟩ := contains_faults_iff.1 hpath
      · apply contains_faults_iff.2
        exact ⟨fault, .inl ⟨hown.1, kept_of_subset hsubset hown.2⟩⟩
      · rw [hpropagate] at hpassed
        cases hpassed

namespace Sample

/-- A package that imports one at fault. -/
def exposed : PackageTree :=
  ⟨"m", ⟨[("m", .ok { name := "a", imports := ["m/bad", "fmt"] }),
    ("m/bad", .error (.unreadable "bad" "denied"))], by decide +kernel⟩⟩

/-- Options under which faults stay with their packages and one package is ignored. -/
def lenient : ReachOptions :=
  { mains := true, tests := false, propagate := false, ignored := ["m/bad"] }

end Sample

theorem reach_eq_reach_without_sample :
  ({ ignored := Sample.lenient.ignored } : Manifest).ignores "m/bad" = true ∧
    (Sample.exposed.reach Sample.lenient).1.contains "m/bad" = false ∧
    (Sample.exposed.reach Sample.lenient).2.contains "m/bad" = false ∧
    Sample.lenient.propagate = false ∧ Sample.lenient.ignored ⊆ ["m/bad", "n"] ∧
    (Sample.exposed.reach { Sample.lenient with ignored := ["m/bad", "n"] }).1.get? "m"
      = some ⟨[], ["fmt"]⟩ ∧
    ∃ e, (Sample.exposed.reach Sample.lenient).1.get? "m" = some e ∧
      [] ⊆ e.internal ∧ ["fmt"] ⊆ e.external
  := by
  obtain ⟨-, -, hnowhere, henlarged⟩ := reach_eq_reach_without Sample.exposed Sample.lenient
  have hignored : ({ ignored := Sample.lenient.ignored } : Manifest).ignores "m/bad" = true := by
    decide
  have hsubset : Sample.lenient.ignored ⊆ ["m/bad", "n"] := by
    simp [Sample.lenient]
  have hentry : (Sample.exposed.reach { Sample.lenient with ignored := ["m/bad", "n"] }).1.get?
      "m" = some ⟨[], ["fmt"]⟩ := by cbv
  obtain ⟨hreach, hfault, -⟩ := hnowhere "m/bad" hignored
  exact ⟨hignored, hreach, hfault, rfl, hsubset, hentry,
    (henlarged rfl _ hsubset).1 "m" _ hentry⟩

end PackageTree
end DepLock
