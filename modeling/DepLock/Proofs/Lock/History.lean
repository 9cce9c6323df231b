import DepLock.Proofs.Lock.Merge
import DepLock.Proofs.Lock.Operations

/-!
# How locks come about

A lock is new, made of projects or read from a text, and then entries are set, its projects are
sorted, its memo is changed, or a lock that came about in the same way is merged in.
`Lock.Arises arrivals l` says that operations of this kind give `l`, where `arrivals` lists the
entries that came in, the latest last. Such a lock has each root once, and what is found for a root is
the entry that came in last for it (`Lock.latest_of_arises`).
-/

namespace DepLock

/-! ### Entries in a text -/

namespace LockRecord

/-- The entries of a record that can be read. -/
def entries (r : LockRecord) : List LockedProject :=
  r.projects.filterMap fun e => e.toProject.toOption

/-- The root of an entry is named by its record. -/
theorem root_of_toProject {r : LockedRecord} {p : LockedProject} (h : r.toProject = .ok p) :
  p.root = .ofString r.name
  := by
  simp only [LockedRecord.toProject] at h
  split at h
  · cases h
  · split at h
    · cases h
    all_goals
      split at h <;> cases h
      rfl

variable {rs : List LockedRecord} {l l' : Lock}

/-- Records that are added to a lock are all read, and go last in their order. -/
theorem of_addProjects (h : addProjects rs l = .ok l') :
  l'.projects = l.projects ++ rs.filterMap (fun r => r.toProject.toOption)
    ∧ l'.roots = l.roots ++ rs.map (fun r => .ofString r.name)
  := by
  induction rs generalizing l with
  | nil =>
    cases h
    simp
  | cons r rs ih =>
    rw [addProjects] at h
    split at h
    · cases h
    next p hread =>
      split at h
      · cases h
      next =>
        obtain ⟨hprojects, hroots⟩ := ih h
        rw [hprojects, hroots]
        simp [Lock.roots, hread, Except.toOption, root_of_toProject hread]

end LockRecord

namespace Lock

variable {l : Lock} {p : LockedProject}

/-- A lock that is read from a text has the entries of the text in their order. -/
theorem exists_of_parse {text : String} (h : parse text = .ok l) :
  ∃ r, (Toml.parse? text).bind LockRecord.ofTable? = some r ∧ l.projects = r.entries
    ∧ l.roots = r.projects.map fun e => .ofString e.name
  := by
  rw [parse] at h
  split at h
  · cases h
  next r hr =>
    split at h
    · cases h
    next l' hread =>
      cases h
      use r, hr
      simpa [roots, LockRecord.entries] using LockRecord.of_addProjects hread

/-- A text is refused if the names of two entries are the same up to slashes at their ends. -/
theorem parse_eq_error_of_repeated {text : String} {r : LockRecord}
    (hr : (Toml.parse? text).bind LockRecord.ofTable? = some r)
    (hrepeated : ¬ r.projects.Pairwise
      fun a b => Text.trimEndChar '/' a.name ≠ Text.trimEndChar '/' b.name) :
  ∃ fault, parse text = .error (.fault fault)
  := by
  cases h : parse text with
  | error e =>
    simp only [parse, hr] at h
    split at h
    next fault _ =>
      cases h
      use fault
    next => cases h
  | ok l =>
    exfalso
    apply hrepeated
    obtain ⟨r', hr', -, hroots⟩ := exists_of_parse h
    obtain rfl : r' = r := by simpa [hr'] using hr
    have hdistinct := distinct_iff.mp (Regular.of_parse h).distinct
    rw [hroots, List.nodup_iff_pairwise_ne, List.pairwise_map] at hdistinct
    apply hdistinct.imp
    intro a b hne hname
    apply hne
    rw [ProjectRoot.mk.injEq]
    apply hname

/-! ### Histories -/

/-- What an entry is made of. -/
structure Entry where
  id : ProjectId
  version : Version
  packages : List String

/-- The entry that is made. -/
def Entry.project (e : Entry) : LockedProject := .of e.id e.version e.packages

/-- Locks that come about by operations which bring in a list of entries, the latest last. -/
inductive Arises : List LockedProject → Lock → Prop where
  | new : Arises [] {}
  | ofProjects (es : List Entry) : Arises (es.map Entry.project) (ofProjects (es.map Entry.project))
  | parse {text : String} {r : LockRecord} {l : Lock}
    (hr : (Toml.parse? text).bind LockRecord.ofTable? = some r) (h : parse text = .ok l) :
    Arises r.entries l
  | upsert {arrivals : List LockedProject} {l : Lock} (h : Arises arrivals l) (e : Entry) :
    Arises (arrivals ++ [e.project]) (l.upsert e.project)
  | sort {arrivals : List LockedProject} {l : Lock} (h : Arises arrivals l) : Arises arrivals l.sort
  | setMemo {arrivals : List LockedProject} {l : Lock} (h : Arises arrivals l) (memo : String) :
    Arises arrivals { l with memo := memo }
  | merge {before after : List LockedProject} {base overlay : Lock} (hbase : Arises before base)
    (hoverlay : Arises after overlay) : Arises (before ++ after) (base.merge overlay)

namespace Arises

variable {arrivals : List LockedProject}

/-- The operations keep each root once. -/
theorem distinct (h : Arises arrivals l) :
  l.Distinct
  := by
  induction h with
  | new => apply List.Pairwise.nil
  | ofProjects es => apply distinct_ofProjects
  | parse _ h => apply (Regular.of_parse h).distinct
  | upsert _ e ih => apply distinct_upsertProject _ ih
  | sort _ ih => apply ih.sort
  | setMemo _ _ ih => apply ih
  | merge _ _ ihbase _ => apply distinct_merge ihbase

/-- What is found for a root is the entry that came in last for it. -/
theorem get?_eq (h : Arises arrivals l) (root : ProjectRoot) :
  l.get? root = arrivals.findRev? (·.root = root)
  := by
  induction h with
  | new => rfl
  | ofProjects es =>
    rw [Lock.ofProjects, get?_foldl_upsert_eq]
    apply Option.or_none
  | parse hr h =>
    obtain ⟨r, hr', hprojects, -⟩ := exists_of_parse h
    obtain rfl := Option.some.inj (hr.symm.trans hr')
    rw [← hprojects, findRev?_projects (Regular.of_parse h).distinct]
  | upsert h e ih =>
    rw [get?_upsert, ih, findRev?_append]
    by_cases hroot : e.project.root = root
    · simp [List.findRev?, hroot]
    · simp [List.findRev?, hroot]
  | sort h ih => rw [get?_sort h.distinct, ih]
  | setMemo _ _ ih => apply ih
  | merge _ hoverlay ihbase ihoverlay =>
    rw [get?_merge _ hoverlay.distinct, ihbase, ihoverlay, findRev?_append]

/-- Every entry of a lock came in. -/
theorem mem_of_mem (h : Arises arrivals l) (hp : p ∈ l.projects) :
  p ∈ arrivals
  := by
  have hget := (get?_eq_some_iff h.distinct).mpr ⟨hp, rfl⟩
  rw [h.get?_eq, List.findRev?_eq_find?_reverse] at hget
  apply List.mem_reverse.mp (List.mem_of_find?_eq_some hget)

/-- The packages of every entry that comes in increase. -/
theorem increasing (h : Arises arrivals l) (hp : p ∈ arrivals) :
  p.packages.Pairwise fun a b => compare a b = .lt
  := by
  induction h with
  | new => cases hp
  | ofProjects es =>
    obtain ⟨e, -, rfl⟩ := List.mem_map.mp hp
    apply increasing_sortDedup
  | parse hr h =>
    obtain ⟨r, hr', hprojects, -⟩ := exists_of_parse h
    obtain rfl := Option.some.inj (hr.symm.trans hr')
    rw [← hprojects] at hp
    obtain ⟨_, _, _, _, rfl⟩ := (Regular.of_parse h).made p hp
    apply increasing_sortDedup
  | upsert _ e ih =>
    rcases List.mem_append.mp hp with hp | hp
    · apply ih hp
    · obtain rfl := List.mem_singleton.mp hp
      apply increasing_sortDedup
  | sort _ ih => apply ih hp
  | setMemo _ _ ih => apply ih hp
  | merge _ _ ihbase ihoverlay =>
    rcases List.mem_append.mp hp with hp | hp
    · apply ihbase hp
    · apply ihoverlay hp

end Arises

/-- A lock that comes about by operations has each root once, with the entry that came in last for
it and with packages that increase. An entry that is set takes the place of the one with its root
and changes no other; new roots go last in the order in which they come in. A text that repeats a
name up to slashes at its end is no lock. -/
theorem latest_of_arises (h : Arises arrivals l) :
  l.Distinct
  ∧ (∀ root, l.get? root = arrivals.findRev? (·.root = root))
  ∧ (∀ p, (l.upsert p).projects = l.projects.map (fun q => if q.root = p.root then p else q)
    ++ if p.root ∈ l.roots then [] else [p])
  ∧ (∀ ps : List LockedProject, (ps.foldl upsert l).roots
    = l.roots ++ ((ps.map (·.root)).removeAll l.roots).eraseDups)
  ∧ (∀ p ∈ l.projects, p.packages.Pairwise fun a b => compare a b = .lt)
  ∧ ∀ text r, (Toml.parse? text).bind LockRecord.ofTable? = some r →
    ¬ r.projects.Pairwise
      (fun a b => Text.trimEndChar '/' a.name ≠ Text.trimEndChar '/' b.name) →
    ∃ fault, parse text = .error (.fault fault)
  := by
  refine ⟨h.distinct, h.get?_eq, ?_, ?_, ?_, ?_⟩
  · intro p
    apply upsertProject_eq (distinct_iff.mp h.distinct)
  · intro ps
    rw [roots_foldl_upsert, foldl_addNew]
  · intro p hp
    apply h.increasing (h.mem_of_mem hp)
  · intro text r
    apply parse_eq_error_of_repeated

/-! ### A lock that is read, changed and merged -/

namespace Sample

/-- A file with two projects, of which one is named with a slash at its end. -/
def twoProjects : String :=
  "memo = \"9f\"\n\n"
    ++ "[[projects]]\nname = \"y.io/b\"\nbranch = \"dev\"\nrevision = \"d1\"\n\n"
    ++ "[[projects]]\nname = \"x.io/a/\"\nversion = \"v1.0.0\"\npackages = [\"z\", \".\"]\n"

/-- What the file says. -/
def twoRecords : LockRecord where
  memo := "9f"
  projects := [
    { name := "y.io/b", branch := some "dev", revision := some "d1" },
    { name := "x.io/a/", version := some "v1.0.0", packages := ["z", "."] }]

/-- The lock in the file. -/
def twoLocked : Lock := ⟨"9f", twoRecords.entries⟩

/-- An entry of a project in the file, from another place. -/
def forked : Entry where
  id := ⟨.ofString "y.io/b", some "w.io/fork"⟩
  version := .bare ⟨"b2"⟩
  packages := ["z", "a", "z"]

/-- An entry of a project that is not in the file. -/
def fresh : Entry where
  id := ⟨.ofString "v.io/c", none⟩
  version := .bare ⟨"c1"⟩
  packages := ["."]

/-- The lock in the file, in which the first entry is set, merged with a lock of the other. -/
def merged : Lock := (twoLocked.upsert forked.project).merge (ofProjects [fresh.project])

/-- The entry that was set is found, and the project that is new goes last. -/
theorem latest_of_arises_merged :
  Arises (twoRecords.entries ++ [forked.project] ++ [fresh.project]) merged ∧ merged.Distinct
    ∧ merged.get? forked.id.root = some forked.project
    ∧ (merged.upsert fresh.project).roots = [.ofString "y.io/b", .ofString "x.io/a",
      .ofString "v.io/c"]
  := by
  have hrecord : (Toml.parse? twoProjects).bind LockRecord.ofTable? = some twoRecords := by
    apply Toml.read_of_ofChars?
    · unfold twoProjects
      rw [String.toList_append, String.toList_append, String.toList_ofList,
        String.toList_ofList, String.toList_ofList]
    · decide +kernel
  have hlock : twoRecords.toLock = .ok twoLocked := by cbv
  have hparse : parse twoProjects = .ok twoLocked := parse_eq_ok hrecord hlock
  have harises : Arises (twoRecords.entries ++ [forked.project] ++ [fresh.project]) merged :=
    ((Arises.parse hrecord hparse).upsert forked).merge (.ofProjects [fresh])
  obtain ⟨hdistinct, hget, -, hroots, -, -⟩ := latest_of_arises harises
  refine ⟨harises, hdistinct, ?_, ?_⟩
  · rw [hget]
    rfl
  · apply (hroots [fresh.project]).trans
    decide

end Sample

end Lock
end DepLock
