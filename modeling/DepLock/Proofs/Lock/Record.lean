import DepLock.Lock.File
import DepLock.Proofs.Lock.Basic
import DepLock.Proofs.ProjectRoot

/-!
# Reading back the record of a lock

`Lock.reread` is the lock that comes back from the record of a lock whose projects have names and
occur once (`Lock.toLock_toRecord`): the projects are sorted, tags are classified anew, and branches
are no default branches any more.
-/

namespace DepLock

/-- The ref that is read back for a written one. -/
def Ref.reread : Ref → Ref
  | .branch name _ => .branch name false
  | ref => .ofTag ref.name

/-- The version that is read back for a written one. -/
def Version.reread : Version → Version
  | .bare r => .bare r
  | .named ref => .named ref.reread
  | .paired ref r => .paired ref.reread r

/-- The locked project that is read back for a written one. -/
def LockedProject.reread (p : LockedProject) : LockedProject :=
  .of (.withSource p.root p.id.source) p.version.reread p.packages

/-- The lock that is read back for a written one. -/
def Lock.reread (l : Lock) : Lock :=
  { l.sort with projects := l.sort.projects.map LockedProject.reread }

/-- Whether no two entries of a lock have the same root. -/
def Lock.Distinct (l : Lock) : Prop := l.projects.Pairwise fun p q => p.root ≠ q.root

namespace LockedRecord

@[simp]
theorem name_ofProject (p : LockedProject) :
  (ofProject p).name = p.root.text
  := by
  unfold ofProject
  split <;> rfl

/-- A locked project is read back from its record. -/
theorem toProject_ofProject {p : LockedProject} (hroot : p.root.text ≠ "") :
  (ofProject p).toProject = .ok p.reread
  := by
  rw [toProject, name_ofProject, if_neg hroot]
  obtain ⟨⟨root, source⟩, version, packages⟩ := p
  simp only [LockedProject.reread, LockedProject.root, ProjectRoot.ofString_text]
  cases version with
  | bare r => rfl
  | named ref => cases ref <;> rfl
  | paired ref r => cases ref <;> rfl

end LockedRecord

namespace LockRecord

/-- Projects that occur once are added behind others that are not among them. -/
theorem addProjects_ofProject {ps : List LockedProject}
    (hdistinct : ps.Pairwise fun p q => p.root ≠ q.root) (hnamed : ∀ p ∈ ps, p.root.text ≠ "")
    {l : Lock} (hnew : ∀ p ∈ ps, l.contains p.root = false) :
  addProjects (ps.map .ofProject) l
    = .ok { l with projects := l.projects ++ ps.map LockedProject.reread }
  := by
  induction ps generalizing l with
  | nil => simp [addProjects]
  | cons p ps ih =>
    obtain ⟨hp, hdistinct⟩ := List.pairwise_cons.mp hdistinct
    obtain ⟨hroot, hnamed⟩ := List.forall_mem_cons.mp hnamed
    obtain ⟨hfirst, hnew⟩ := List.forall_mem_cons.mp hnew
    have hreread : p.reread.root = p.root := rfl
    rw [List.map_cons, addProjects, LockedRecord.toProject_ofProject hroot]
    simp only [hreread, hfirst, Bool.false_eq_true, if_false]
    rw [ih hdistinct hnamed]
    · simp
    · intro q hq
      have hother := hnew q hq
      rw [Lock.contains, Lock.get?, Option.isSome_eq_false_iff,
        Option.isNone_iff_eq_none] at hother ⊢
      simpa [List.find?_append, hother, hreread] using hp q hq

end LockRecord

namespace Lock

/-- The record of a lock lists the records of its sorted projects. -/
theorem projects_toRecord (l : Lock) :
  l.toRecord.projects = l.sort.projects.map .ofProject
  := by
  symm
  apply List.map_mergeSort
  intro p _ q _
  rw [orderedLE, orderedLE, LockedRecord.name_ofProject, LockedRecord.name_ofProject]
  rfl

/-- A lock is read back from its record, when its projects have names and occur once. -/
theorem toLock_toRecord {l : Lock} (hdistinct : l.Distinct)
    (hnamed : ∀ p ∈ l.projects, p.root.text ≠ "") :
  l.toRecord.toLock = .ok l.reread
  := by
  have hperm : l.sort.projects.Perm l.projects := List.mergeSort_perm _ _
  have hsorted : l.sort.projects.Pairwise fun p q => p.root ≠ q.root :=
    (hperm.pairwise_iff fun h => h.symm).mpr hdistinct
  rw [LockRecord.toLock, projects_toRecord, LockRecord.addProjects_ofProject hsorted]
  · rfl
  · exact fun p hp => hnamed p (hperm.mem_iff.mp hp)
  · exact fun p _ => rfl

/-- A text that has a record is read as the lock of the record. -/
theorem parse_eq_ok {text : String} {r : LockRecord} {l : Lock}
    (htoml : (Toml.parse? text).bind LockRecord.ofTable? = some r) (hlock : r.toLock = .ok l) :
  parse text = .ok l
  := by
  unfold parse
  simp only [htoml, hlock]

/-- A lock is read back from its file, when the record is. -/
theorem parse_renderFile {l : Lock} (hdistinct : l.Distinct)
    (hnamed : ∀ p ∈ l.projects, p.root.text ≠ "")
    (htoml : (Toml.parse? l.renderFile).bind LockRecord.ofTable? = some l.toRecord) :
  parse l.renderFile = .ok l.reread
  := by
  apply parse_eq_ok htoml (toLock_toRecord hdistinct hnamed)

/-- Setting an entry does not make a root occur twice. -/
theorem distinct_upsertProject {qs : List LockedProject} (p : LockedProject)
    (h : qs.Pairwise fun q r => q.root ≠ r.root) :
  (upsertProject p qs).Pairwise fun q r => q.root ≠ r.root
  := by
  induction qs with
  | nil => exact List.pairwise_singleton _ _
  | cons q qs ih =>
    obtain ⟨hq, hqs⟩ := List.pairwise_cons.mp h
    rw [upsertProject]
    split
    next hsame =>
      rw [List.pairwise_cons]
      exact ⟨fun r hr => hsame ▸ hq r hr, hqs⟩
    next hother =>
      refine List.pairwise_cons.mpr ⟨?_, ih hqs⟩
      intro r hr
      rcases mem_of_mem_upsertProject hr with rfl | hr
      · exact hother
      · exact hq r hr

/-- The lock of a list of projects has each root once. -/
theorem distinct_ofProjects (ps : List LockedProject) :
  (ofProjects ps).Distinct
  := by
  suffices hfold : ∀ l : Lock, l.Distinct → (ps.foldl upsert l).Distinct by
    exact hfold {} List.Pairwise.nil
  induction ps with
  | nil => exact fun _ => id
  | cons p ps ih => exact fun l hl => ih _ (distinct_upsertProject p hl)

end Lock
end DepLock
