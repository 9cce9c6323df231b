import DepLock.Foreign.Conversion
import DepLock.Proofs.Order.SortedMap

/-!
# Entries of one project

The entries of a project are put together field by field: the first entry gives the name, and each
other field is the first that says something, in the order of the entries. The entries of other
projects do not matter, wherever they stand (`get?_of_consolidate`). One entry whose project is
unknown makes the conversion fail before anything is written, which is said of the conversion as it
writes into a manifest and a lock that exist (`addInPlace`).
-/

namespace DepLock

namespace ForeignEntry

/-- The entries of a project, in their order. -/
def ofProject (deduce : String → Except SourceError ProjectRoot) (root : ProjectRoot)
    (es : List ForeignEntry) : List ForeignEntry :=
  es.filter fun e => (deduce e.name).toOption = some root

/-- The first of some texts that says something, or the empty text. -/
def firstOf (texts : List String) : String := (texts.find? (· ≠ "")).getD ""

/-- What the entries of one project say together, if there are any: the name of the first, and of
each other field the first text that says something. -/
def together? (es : List ForeignEntry) : Option ForeignEntry :=
  es.head?.map fun first =>
    { name := first.name
      source := firstOf (es.map source)
      lockHint := firstOf (es.map lockHint)
      constraintHint := firstOf (es.map constraintHint) }

/-- Whether some projects are what entries say: one for each project of which there is an entry,
sorted by root, with what its entries say together. -/
structure Consolidated (deduce : String → Except SourceError ProjectRoot) (es : List ForeignEntry)
    (projects : SortedMap ProjectRoot ForeignEntry) : Prop where
  sorted : KeysIncrease projects.toList
  mem_keys : ∀ root, root ∈ projects.keys ↔ ∃ e ∈ es, deduce e.name = .ok root
  fields : ∀ root project, (root, project) ∈ projects.toList →
    together? (ofProject deduce root es) = some project

variable {deduce : String → Except SourceError ProjectRoot} {root : ProjectRoot}
  {e : ForeignEntry} {es : List ForeignEntry}

theorem mem_ofProject :
  e ∈ ofProject deduce root es ↔ e ∈ es ∧ deduce e.name = .ok root
  := by
  cases h : deduce e.name <;> simp [ofProject, h, Except.toOption]

theorem ofProject_cons {own : ProjectRoot} (h : deduce e.name = .ok own) :
  ofProject deduce root (e :: es)
    = if root = own then e :: ofProject deduce root es else ofProject deduce root es
  := by
  simp [ofProject, List.filter_cons, h, Except.toOption, eq_comm]

theorem ofProject_append (es es' : List ForeignEntry) :
  ofProject deduce root (es ++ es') = ofProject deduce root es ++ ofProject deduce root es'
  := List.filter_append ..

/-! ### Filling what is left open -/

theorem firstOf_singleton (text : String) :
  firstOf [text] = text
  := by
  by_cases h : text = "" <;> simp [firstOf, h]

/-- Two texts in front may be replaced by the first of them that says something. -/
theorem firstOf_cons_cons (a b : String) (texts : List String) :
  firstOf (a :: b :: texts) = firstOf (firstSaid a b :: texts)
  := by
  by_cases h : a = "" <;> simp [firstOf, firstSaid, h]

/-- An entry alone says what it says. -/
theorem together?_singleton (e : ForeignEntry) :
  together? [e] = some e
  := by
  simp only [together?, List.head?_cons, Option.map_some, List.map_singleton, firstOf_singleton]

/-- Filling the first entry from the second leaves what the entries say together. -/
theorem together?_fillFrom (first e : ForeignEntry) (es : List ForeignEntry) :
  together? (first.fillFrom e :: es) = together? (first :: e :: es)
  := by
  simp only [together?, List.head?_cons, Option.map_some, List.map_cons, firstOf_cons_cons,
    fillFrom]

/-! ### Projects that are put together -/

/-- Each project is what is known of it and its entries say together. -/
theorem get?_of_consolidate {known projects : SortedMap ProjectRoot ForeignEntry}
    (h : consolidate deduce es known = .ok projects) (root : ProjectRoot) :
  projects.get? root = together? ((known.get? root).toList ++ ofProject deduce root es)
  := by
  -- what is known of the project stands for the entries of it that were passed
  induction es generalizing known with
  | nil =>
    cases h
    cases projects.get? root with
    | none => rfl
    | some first => exact (together?_singleton first).symm
  | cons e es ih =>
    rw [consolidate] at h
    split at h
    · cases h
    next own hown =>
      rw [ih h, SortedMap.get?_alter, ofProject_cons hown]
      by_cases hroot : root = own
      · subst hroot
        rw [if_pos rfl, if_pos rfl]
        cases known.get? root with
        | none => rfl
        | some first => exact together?_fillFrom first e _
      · rw [if_neg hroot, if_neg hroot]

/-- Entries are put together if the roots of all are known. -/
theorem exists_consolidate_iff (deduce : String → Except SourceError ProjectRoot)
    (es : List ForeignEntry) (known : SortedMap ProjectRoot ForeignEntry) :
  (∃ projects, consolidate deduce es known = .ok projects)
    ↔ ∀ e ∈ es, ∃ root, deduce e.name = .ok root
  := by
  induction es generalizing known with
  | nil => simp [consolidate]
  | cons e es ih =>
    rw [consolidate, List.forall_mem_cons]
    cases hroot : deduce e.name with
    | error cause => simp
    | ok root => simp [ih]

/-- The first entry whose root is unknown is named. -/
theorem consolidate_eq_error {before after : List ForeignEntry} {cause : SourceError}
    (hbefore : ∀ e' ∈ before, ∃ root, deduce e'.name = .ok root)
    (he : deduce e.name = .error cause) (known : SortedMap ProjectRoot ForeignEntry) :
  consolidate deduce (before ++ e :: after) known = .error (.unknownRoot e.name cause)
  := by
  induction before generalizing known with
  | nil => rw [List.nil_append, consolidate, he]
  | cons first before ih =>
    obtain ⟨⟨root, hroot⟩, hbefore⟩ := List.forall_mem_cons.1 hbefore
    rw [List.cons_append, consolidate, hroot]
    apply ih hbefore

/-- If the root of some entry is unknown, there is a first such entry. -/
theorem exists_first_unknown (h : ∃ e ∈ es, ∃ cause, deduce e.name = .error cause) :
  ∃ before e after cause, es = before ++ e :: after ∧
    (∀ e' ∈ before, ∃ root, deduce e'.name = .ok root) ∧ deduce e.name = .error cause
  := by
  have hsome : (es.find? fun e => (deduce e.name).toOption.isNone).isSome := by
    obtain ⟨e, he, cause, hcause⟩ := h
    exact List.find?_isSome.2 ⟨e, he, by simp [hcause, Except.toOption]⟩
  obtain ⟨e, hfind⟩ := Option.isSome_iff_exists.1 hsome
  obtain ⟨hunknown, before, after, rfl, hbefore⟩ := List.find?_eq_some_iff_append.1 hfind
  cases hcause : deduce e.name with
  | ok root => simp [hcause, Except.toOption] at hunknown
  | error cause =>
    refine ⟨before, e, after, cause, rfl, ?_, hcause⟩
    intro e' he'
    cases he : deduce e'.name with
    | ok root => exact ⟨root, rfl⟩
    | error cause' =>
      have hknown := hbefore e' he'
      simp [he, Except.toOption] at hknown

/-- What entries are put together to is what they say. -/
theorem consolidated_of_consolidate {projects : SortedMap ProjectRoot ForeignEntry}
    (h : consolidate deduce es ∅ = .ok projects) :
  Consolidated deduce es projects
  := by
  have hget (root : ProjectRoot) : projects.get? root = together? (ofProject deduce root es) := by
    rw [get?_of_consolidate h root, SortedMap.get?_empty, Option.toList_none, List.nil_append]
  constructor
  case sorted => exact projects.increasing
  case mem_keys =>
    intro root
    have hsome : (projects.get? root).isSome ↔ ofProject deduce root es ≠ [] := by
      rw [hget]
      cases ofProject deduce root es <;> simp [together?]
    have hmem : root ∈ projects.keys ↔ (projects.get? root).isSome := by
      simp [SortedMap.keys, Option.isSome_iff_exists, SortedMap.get?_eq_some_iff]
    simp only [hmem, hsome, ne_eq, List.eq_nil_iff_forall_not_mem, mem_ofProject, not_forall,
      not_not]
  case fields =>
    intro root project hproject
    rw [← hget]
    exact SortedMap.get?_eq_some_iff.2 hproject

/-! ### Reordering entries -/

/-- Entries in another order are put together alike if those of each project keep their order. -/
theorem consolidate_reordered {es' : List ForeignEntry}
    {projects : SortedMap ProjectRoot ForeignEntry}
    (h : consolidate deduce es ∅ = .ok projects) (hperm : es'.Perm es)
    (hown : ∀ root, ofProject deduce root es' = ofProject deduce root es) :
  consolidate deduce es' ∅ = .ok projects
  := by
  have hdeduced : ∀ e ∈ es', ∃ root, deduce e.name = .ok root := by
    intro e he
    apply (exists_consolidate_iff deduce es ∅).1 ⟨projects, h⟩ e (hperm.mem_iff.1 he)
  obtain ⟨projects', h'⟩ := (exists_consolidate_iff deduce es' ∅).2 hdeduced
  have heq : projects' = projects := by
    apply SortedMap.ext_get?
    intro root
    rw [get?_of_consolidate h', get?_of_consolidate h, hown]
  rw [h', heq]

/-- Two entries of different projects may change places if neither project has an entry between
them. -/
theorem ofProject_swap {before between after : List ForeignEntry} {a b : ForeignEntry}
    {ra rb : ProjectRoot} (ha : deduce a.name = .ok ra) (hb : deduce b.name = .ok rb)
    (hne : ra ≠ rb)
    (hbetween : ∀ e ∈ between, deduce e.name ≠ .ok ra ∧ deduce e.name ≠ .ok rb)
    (root : ProjectRoot) :
  ofProject deduce root (before ++ b :: (between ++ a :: after))
    = ofProject deduce root (before ++ a :: (between ++ b :: after))
  := by
  have hnil (hroot : root = ra ∨ root = rb) : ofProject deduce root between = [] := by
    rw [List.eq_nil_iff_forall_not_mem]
    intro e he
    obtain ⟨hmem, hown⟩ := mem_ofProject.1 he
    rcases hroot with rfl | rfl
    · exact (hbetween e hmem).1 hown
    · exact (hbetween e hmem).2 hown
  simp only [ofProject_append, ofProject_cons ha, ofProject_cons hb]
  by_cases hra : root = ra
  · rw [hnil (.inl hra)]
    simp [hra, hne]
  · by_cases hrb : root = rb
    · rw [hnil (.inr hrb)]
      simp [hrb, Ne.symm hne]
    · simp [hra, hrb]

/-- Entries are put together alike if two of different projects change places, and neither project
has an entry between them. -/
theorem consolidate_swapped {before between after : List ForeignEntry} {a b : ForeignEntry}
    {ra rb : ProjectRoot} {projects : SortedMap ProjectRoot ForeignEntry}
    (h : consolidate deduce (before ++ a :: (between ++ b :: after)) ∅ = .ok projects)
    (ha : deduce a.name = .ok ra) (hb : deduce b.name = .ok rb) (hne : ra ≠ rb)
    (hbetween : ∀ e ∈ between, deduce e.name ≠ .ok ra ∧ deduce e.name ≠ .ok rb) :
  consolidate deduce (before ++ b :: (between ++ a :: after)) ∅ = .ok projects
  := by
  apply consolidate_reordered h
  · apply List.Perm.append_left
    calc
      List.Perm (b :: (between ++ a :: after)) (b :: a :: (between ++ after)) :=
        List.perm_middle.cons b
      List.Perm _ (a :: b :: (between ++ after)) := List.Perm.swap ..
      List.Perm _ (a :: (between ++ b :: after)) := (List.perm_middle.cons a).symm
  · apply ofProject_swap ha hb hne hbetween

end ForeignEntry

namespace Conversion

open ForeignEntry

/-! ### Converting in place -/

/-- Entries of some projects, written one after the other into a conversion that exists. -/
def writeProjects (sm : SourceManager) (fromLock : Bool) :
    List (ProjectRoot × ForeignEntry) → EStateM ImportError Conversion Log
  | [] => return []
  | (root, e) :: es => do
    let log ← modifyGet fun c => (c.addEntry sm fromLock root e).swap
    let more ← writeProjects sm fromLock es
    return log ++ more

/-- Entries, put together and then written into a conversion that exists. -/
def addInPlace (sm : SourceManager) (fromLock : Bool) (es : List ForeignEntry) :
    EStateM ImportError Conversion Log :=
  match consolidate sm.deduceRoot es ∅ with
  | .error e => throw e
  | .ok projects => writeProjects sm fromLock projects.toList

theorem run_writeProjects (sm : SourceManager) (fromLock : Bool)
    (es : List (ProjectRoot × ForeignEntry)) (c : Conversion) :
  (writeProjects sm fromLock es).run c
    = .ok (addProjects sm fromLock es c).2 (addProjects sm fromLock es c).1
  := by
  induction es generalizing c with
  | nil => rfl
  | cons entry es ih =>
    obtain ⟨root, e⟩ := entry
    simp [writeProjects, addProjects, ih, -bind_pure_comp]

/-- Converting in place gives what converting gives, and a failure leaves what was there. -/
theorem run_addInPlace (sm : SourceManager) (fromLock : Bool) (es : List ForeignEntry)
    (c : Conversion) :
  (addInPlace sm fromLock es).run c = match addEntries sm fromLock es c with
    | .error e => .error e c
    | .ok (added, log) => .ok log added
  := by
  rw [addInPlace, addEntries]
  cases consolidate sm.deduceRoot es ∅ with
  | error e => rfl
  | ok projects => exact run_writeProjects sm fromLock projects.toList c

/-- If the roots of all entries are known, they are put together to one entry for each project,
sorted by root: with the name of the project's first entry and, for each other field, the first text
of the project's entries that says something. Only the order in each project matters, so entries of
different projects may change places. If the root of some entry is unknown, the first such entry is
named and nothing is written. -/
theorem consolidated_or_untouched (sm : SourceManager) (es : List ForeignEntry) :
  ((∀ e ∈ es, ∃ root, sm.deduceRoot e.name = .ok root) →
    ∃ projects, consolidate sm.deduceRoot es ∅ = .ok projects ∧
      Consolidated sm.deduceRoot es projects ∧
      (∀ es', es'.Perm es →
        (∀ root, ofProject sm.deduceRoot root es' = ofProject sm.deduceRoot root es) →
        consolidate sm.deduceRoot es' ∅ = .ok projects) ∧
      ∀ before a between b after ra rb, es = before ++ a :: (between ++ b :: after) →
        sm.deduceRoot a.name = .ok ra → sm.deduceRoot b.name = .ok rb → ra ≠ rb →
        (∀ e ∈ between, sm.deduceRoot e.name ≠ .ok ra ∧ sm.deduceRoot e.name ≠ .ok rb) →
        consolidate sm.deduceRoot (before ++ b :: (between ++ a :: after)) ∅ = .ok projects) ∧
  ((∃ e ∈ es, ∃ cause, sm.deduceRoot e.name = .error cause) →
    ∃ before e after cause, es = before ++ e :: after ∧
      (∀ e' ∈ before, ∃ root, sm.deduceRoot e'.name = .ok root) ∧
      sm.deduceRoot e.name = .error cause ∧
      ∀ fromLock c, addEntries sm fromLock es c = .error (.unknownRoot e.name cause) ∧
        (addInPlace sm fromLock es).run c = .error (.unknownRoot e.name cause) c)
  := by
  constructor
  · intro hdeduced
    obtain ⟨projects, h⟩ := (exists_consolidate_iff sm.deduceRoot es ∅).2 hdeduced
    refine ⟨projects, h, consolidated_of_consolidate h,
      fun es' hperm hown => consolidate_reordered h hperm hown, ?_⟩
    rintro before a between b after ra rb rfl ha hb hne hbetween
    apply consolidate_swapped h ha hb hne hbetween
  · intro hunknown
    obtain ⟨before, e, after, cause, rfl, hbefore, he⟩ := exists_first_unknown hunknown
    refine ⟨before, e, after, cause, rfl, hbefore, he, ?_⟩
    intro fromLock c
    have hadd : addEntries sm fromLock (before ++ e :: after) c
        = .error (.unknownRoot e.name cause) := by
      rw [addEntries, consolidate_eq_error hbefore he]
    exact ⟨hadd, by rw [run_addInPlace, hadd]⟩

namespace Sample

/-- A root of which a package below it is named first. -/
def parser : ProjectRoot := .ofString "x.io/parser"

/-- A root that is named by itself. -/
def printer : ProjectRoot := .ofString "y.io/printer"

/-- Two projects without versions. -/
def projectsOnly : SourceManager where
  deduceRoot path :=
    if parser.contains path then .ok parser
    else if printer.contains path then .ok printer
    else .error (.deduction path .unknownHost)
  listVersions _ := .ok []
  sync _ := .ok ()

/-- An entry of a package below a root. -/
def lexer : ForeignEntry := { name := "x.io/parser/lex", constraintHint := "dev" }

/-- The entry of the root itself. -/
def whole : ForeignEntry :=
  { name := "x.io/parser", source := "w.io/fork", lockHint := "1b8", constraintHint := "v1.0.0" }

/-- The entry of the other project. -/
def other : ForeignEntry := { name := "y.io/printer", lockHint := "5e" }

/-- An entry of no known project. -/
def lost : ForeignEntry := { name := "z.io/lost" }

end Sample

theorem consolidated_or_untouched_sample :
  (∃ projects,
    consolidate Sample.projectsOnly.deduceRoot [Sample.lexer, Sample.other, Sample.whole] ∅
      = .ok projects ∧
    Consolidated Sample.projectsOnly.deduceRoot [Sample.lexer, Sample.other, Sample.whole]
      projects ∧
    consolidate Sample.projectsOnly.deduceRoot [Sample.other, Sample.lexer, Sample.whole] ∅
      = .ok projects) ∧
  ∃ e cause, ∀ fromLock c,
    (addInPlace Sample.projectsOnly fromLock [Sample.lexer, Sample.lost, Sample.whole]).run c
      = .error (.unknownRoot e cause) c
  := by
  have hlexer : Sample.projectsOnly.deduceRoot Sample.lexer.name = .ok Sample.parser := by decide
  have hother : Sample.projectsOnly.deduceRoot Sample.other.name = .ok Sample.printer := by decide
  have hwhole : Sample.projectsOnly.deduceRoot Sample.whole.name = .ok Sample.parser := by decide
  have hlost : Sample.projectsOnly.deduceRoot Sample.lost.name
      = .error (.deduction "z.io/lost" .unknownHost) := by decide
  constructor
  · have hdeduced : ∀ e ∈ [Sample.lexer, Sample.other, Sample.whole],
        ∃ root, Sample.projectsOnly.deduceRoot e.name = .ok root := by
      simp only [List.forall_mem_cons]
      exact ⟨⟨_, hlexer⟩, ⟨_, hother⟩, ⟨_, hwhole⟩, nofun⟩
    obtain ⟨projects, h, hconsolidated, -, hswap⟩ := (consolidated_or_untouched _ _).1 hdeduced
    refine ⟨projects, h, hconsolidated, ?_⟩
    exact hswap [] _ [] _ [Sample.whole] _ _ rfl hlexer hother (by decide) nofun
  · obtain ⟨before, e, after, cause, -, -, -, hfails⟩ :=
      (consolidated_or_untouched Sample.projectsOnly
        [Sample.lexer, Sample.lost, Sample.whole]).2 ⟨Sample.lost, by simp, _, hlost⟩
    exact ⟨e.name, cause, fun fromLock c => (hfails fromLock c).2⟩

end Conversion
end DepLock
