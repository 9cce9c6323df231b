import DepLock.Proofs.Discovery.Explored
import DepLock.Proofs.Foreign.Wellformed
import DepLock.Proofs.Lock.Record
import DepLock.Proofs.Manifest.Record
import DepLock.Proofs.Solve.Relock
import DepLock.Setup.Run

/-!
# The stages of a setup

`Setup.Passes` says what a setup that succeeds has gone through: it discovers, drafts, solves,
reconciles, and writes two files. When the versions that come from outside are well-formed, then so
is everything that the stages hand on, and each project that the manifest constrains is in the lock
(`Setup.Passes.rules`).
-/

namespace DepLock

/-- Whether the versions of all checkouts are well-formed. -/
def Workspace.Wellformed (w : Workspace) : Prop :=
  ∀ root v, w.version root = .resolved v → v.Wellformed

/-! ### Discovery and solving -/

/-- What is discovered is well-formed. -/
theorem Discovery.wellformed_of_discover {d : Discovery} (hd : d.workspace.Wellformed)
    {tree : PackageTree} {budget : Nat} {data : ProjectData} {synced : List ProjectRoot} {log : Log}
    (h : d.discover tree budget = some ⟨.ok data, synced, log⟩) :
  PairWellformed (data.manifest, data.lock)
  := by
  obtain ⟨w, hw, rfl, -⟩ := explored_of_discover h
  have honDisk : ∀ root v, w.data.onDisk.get? root = some v → v.Wellformed :=
    fun root v hv => hd root v (hw.onDisk root v hv)
  refine ⟨⟨?_, rfl⟩, ?_⟩
  · intro root rule hrule
    have hrules := hw.rules root
    rw [show w.data.constraints.get? root = some rule from hrule] at hrules
    split at hrules
    next =>
      obtain ⟨v, hv, hrule⟩ := Option.bind_eq_some_iff.1 hrules.symm
      obtain ⟨c, hc, rfl⟩ := ProjectRule.ofVersion?_eq_some_iff.1 hrule
      apply Constraint.wellformed_of_ofVersion? (honDisk root v hv) hc
    next => cases hrules
  · intro p hp
    obtain ⟨⟨root, v⟩, hmem, rfl⟩ := List.mem_map.1 (Lock.mem_of_mem_ofProjects hp)
    apply honDisk root v (SortedMap.get?_eq_some_iff.2 hmem)

/-- The versions of a solution are well-formed. -/
theorem Solver.wellformed_of_solve {sv : Solver} {p : SolveProblem}
    (hsources : sv.sources.Wellformed) (hlock : p.lock.Wellformed) {budget : Nat}
    {solution : List LockedProject} {log : Log}
    (h : sv.solve p budget = some ⟨.ok solution, log⟩) :
  ∀ q ∈ solution, q.version.Wellformed
  := by
  obtain ⟨s, t, -, -, hfinished, rfl⟩ := exists_finished h
  intro q hq
  obtain ⟨r, -, -, hselect⟩ := hfinished.consistent.selected q.root q.id q.version
    (hfinished.of_mem hq).1
  apply SourceManager.wellformed_of_select hsources hlock hselect

/-! ### Reconciling -/

namespace Manifest

variable {m : Manifest} {d : ProjectData} {p : LockedProject} {ps : List LockedProject}

theorem Drafted.addProject (h : m.Drafted) (hp : p.version.Wellformed) :
  (m.addProject d p).1.Drafted
  := by
  unfold Manifest.addProject
  simp only
  split
  next => apply h
  next rule hrule =>
    unfold impliedRule? at hrule
    split at hrule
    next =>
      obtain ⟨c, hc, rfl⟩ := Option.map_eq_some_iff.1 hrule
      apply h.insert p.root (Constraint.wellformed_of_ofVersion? hp hc)
    next => cases hrule

theorem Drafted.addProjects (h : m.Drafted) (hps : ∀ p ∈ ps, p.version.Wellformed) :
  (addProjects d ps m).1.Drafted
  := by
  induction ps generalizing m with
  | nil => apply h
  | cons p ps ih =>
    obtain ⟨hp, hps⟩ := List.forall_mem_cons.1 hps
    apply ih (h.addProject hp) hps

/-- A reconciled manifest has well-formed ranges, overrides nothing, and constrains projects of the
solution only. -/
theorem Drafted.reconcile (h : m.Drafted) (hps : ∀ p ∈ ps, p.version.Wellformed) (lock : Lock) :
  (m.reconcile d lock ps).1.Drafted ∧
    ∀ root rule, (m.reconcile d lock ps).1.constraints.get? root = some rule →
      ∃ p ∈ ps, p.root = root
  := by
  have hadded : (Manifest.addProjects d (ps.filter fun p => !lock.contains p.root) m).1.Drafted :=
    h.addProjects fun p hp => hps p (List.mem_filter.1 hp).1
  have hget (root : ProjectRoot) (rule : ProjectRule)
      (hrule : (m.reconcile d lock ps).1.constraints.get? root = some rule) :
      (ps.any fun p => decide (p.root = root)) = true ∧
      (Manifest.addProjects d (ps.filter fun p => !lock.contains p.root) m).1.constraints.get? root
        = some rule := by
    simp only [Manifest.reconcile, prune, SortedMap.get?_filter, Option.filter_eq_some_iff] at hrule
    exact hrule.symm
  refine ⟨⟨fun root rule hrule => ?_, hadded.overrides⟩, fun root rule hrule => ?_⟩
  · apply hadded.constraints root rule (hget root rule hrule).2
  · simpa using (hget root rule hrule).1

end Manifest

/-! ### Setups -/

namespace Setup

variable {s : Setup} {files : FileTree} {options : SetupOptions} {budget : Nat}

/-- The end of a setup that succeeds, from the discovered dependencies on. -/
structure Finishes (s : Setup) (files : FileTree) (options : SetupOptions) (budget : Nat)
    (directory : String) (tree : PackageTree) (d : ProjectData) (draft : Draft)
    (solution : List LockedProject) (m : Manifest) (l : Lock) (after : FileTree) : Prop where
  drafted : s.draft files options directory tree d = .ok draft
  solved : ∃ log, (s.solver files).solve ⟨tree, draft.manifest, draft.lock⟩ budget
    = some ⟨.ok solution, log⟩
  reconciled : m = (draft.manifest.reconcile d draft.lock solution).1
  locked : l = { Lock.ofProjects solution with
    memo := SolveProblem.memo ⟨tree, m, Lock.ofProjects solution⟩ (s.analyzer files) }
  written : ∃ between,
    s.write files (Path.join directory Manifest.fileName) m.render = .ok between ∧
    s.write between (Path.join directory Lock.fileName) l.renderFile = .ok after

/-- What a setup goes through that succeeds with a manifest and a lock. -/
structure Passes (s : Setup) (files : FileTree) (options : SetupOptions) (budget : Nat)
    (directory importRoot : String) (tree : PackageTree) (d : ProjectData) (draft : Draft)
    (solution : List LockedProject) (m : Manifest) (l : Lock) (after : FileTree) : Prop
    extends s.Finishes files options budget directory tree d draft solution m l after where
  located : s.directory files options = .ok directory
  rooted : s.importRoot files options directory = .ok importRoot
  listed : s.lister directory importRoot = .ok tree
  discovered : ∃ synced log, Discovery.discover ⟨s.sources, s.lister, s.workspace⟩ tree budget
    = some ⟨.ok d, synced, log⟩

/-- Both files are written when saving succeeds. -/
theorem writes_of_save {directory : String} {m : Manifest} {l : Lock} {after : FileTree}
    (h : s.save files directory m l = (.ok (), after)) :
  ∃ between, s.write files (Path.join directory Manifest.fileName) m.render = .ok between ∧
    s.write between (Path.join directory Lock.fileName) l.renderFile = .ok after
  := by
  unfold save at h
  simp only at h
  split at h
  next => cases h
  next between hbetween =>
    split at h
    next => cases h
    next hafter =>
      cases h
      exact ⟨between, hbetween, hafter⟩

/-- A failed setup has no manifest and no lock. -/
theorem not_failed {synced : List ProjectRoot} {log : Log} {e : SetupError} {o : SetupOutcome}
    {pair : Manifest × Lock} (h : some (SetupOutcome.failed files synced log e) = some o) :
  o.result ≠ .ok pair
  := by
  cases h
  exact nofun

theorem finishes_of_finish {directory : String} {tree : PackageTree} {synced : List ProjectRoot}
    {log : Log} {d : ProjectData} {o : SetupOutcome} {m : Manifest} {l : Lock}
    (h : s.finish files options directory tree budget synced log d = some o)
    (hresult : o.result = .ok (m, l)) :
  ∃ draft solution, s.Finishes files options budget directory tree d draft solution m l o.files
  := by
  unfold finish at h
  split at h
  next => apply absurd hresult (not_failed h)
  next draft hdraft =>
    obtain ⟨⟨result, more⟩, hsolve, rfl⟩ := Option.map_eq_some_iff.1 h
    use draft
    cases result with
    | error e => cases hresult
    | ok solution =>
      use solution
      simp only at hresult ⊢
      split at hresult
      next => cases hresult
      next after hsave =>
        cases hresult
        exact ⟨hdraft, ⟨more, hsolve⟩, rfl, rfl, writes_of_save hsave⟩

/-- A setup that succeeds has passed all stages. -/
theorem passes_of_run {o : SetupOutcome} {m : Manifest} {l : Lock}
    (h : s.run files options budget = some o) (hresult : o.result = .ok (m, l)) :
  ∃ directory importRoot tree d draft solution,
    s.Passes files options budget directory importRoot tree d draft solution m l o.files
  := by
  unfold run at h
  split at h
  next => apply absurd hresult (not_failed h)
  next directory hdirectory =>
    split at h
    next => apply absurd hresult (not_failed h)
    next importRoot himportRoot =>
      split at h
      next => apply absurd hresult (not_failed h)
      next tree htree =>
        simp only at h
        split at h
        next => cases h
        next found hfound =>
          split at h
          next => apply absurd hresult (not_failed h)
          next d hd =>
            obtain ⟨draft, solution, hfinishes⟩ := finishes_of_finish h hresult
            obtain ⟨result, synced, log⟩ := found
            cases hd
            exact ⟨directory, importRoot, tree, d, draft, solution, hfinishes, hdirectory,
              himportRoot, htree, synced, log, hfound⟩

theorem wellformed_of_draft (hsources : s.sources.Wellformed) {directory : String}
    {tree : PackageTree} {d : ProjectData} {draft : Draft}
    (hd : PairWellformed (d.manifest, d.lock))
    (h : s.draft files options directory tree d = .ok draft) :
  PairWellformed (draft.manifest, draft.lock)
  := by
  simp only [Setup.draft] at h
  split at h
  next =>
    cases h
    apply hd
  next =>
    split at h
    next => cases h
    next =>
      cases h
      apply hd
    next m l hforeign =>
      have hpair := wellformed_of_importForeign hsources hforeign
      cases h
      exact ⟨hd.manifest.merge hpair.manifest, hd.lock.merge hpair.lock⟩

namespace Passes

variable {directory importRoot : String} {tree : PackageTree} {d : ProjectData} {draft : Draft}
  {solution : List LockedProject} {m : Manifest} {l : Lock} {after : FileTree}

theorem distinct
    (h : s.Passes files options budget directory importRoot tree d draft solution m l after) :
  l.Distinct
  := by
  have hprojects : l.projects = (Lock.ofProjects solution).projects := by rw [h.locked]
  rw [Lock.Distinct, hprojects]
  exact Lock.distinct_ofProjects solution

/-- Every project of the solution is in the lock. -/
theorem exists_locked
    (h : s.Passes files options budget directory importRoot tree d draft solution m l after)
    {q : LockedProject} (hq : q ∈ solution) :
  q ∈ l.projects
  := by
  obtain ⟨log, hsolve⟩ := h.solved
  obtain ⟨_, t, -, -, hfinished, rfl⟩ := Solver.exists_finished hsolve
  rw [h.locked]
  apply (Lock.mem_of_get? (Lock.get?_ofProjects hfinished.solution_distinct hq)).1

/-- The manifest has well-formed ranges, overrides nothing, and constrains locked projects only. -/
theorem rules (hsources : s.sources.Wellformed) (hworkspace : s.workspace.Wellformed)
    (h : s.Passes files options budget directory importRoot tree d draft solution m l after) :
  m.Drafted ∧ ∀ root rule, m.constraints.get? root = some rule → ∃ q ∈ l.projects, q.root = root
  := by
  obtain ⟨synced, log, hdiscover⟩ := h.discovered
  have hfound := Discovery.wellformed_of_discover hworkspace hdiscover
  have hdraft := wellformed_of_draft hsources hfound h.drafted
  obtain ⟨log', hsolve⟩ := h.solved
  have hsolution := Solver.wellformed_of_solve hsources hdraft.lock hsolve
  obtain ⟨hdrafted, hsolved⟩ := hdraft.manifest.reconcile (d := d) hsolution draft.lock
  rw [← h.reconciled] at hdrafted hsolved
  use hdrafted
  intro root rule hrule
  obtain ⟨q, hq, hroot⟩ := hsolved root rule hrule
  exact ⟨q, h.exists_locked hq, hroot⟩

end Passes

/-! ### A setup step by step -/

end Setup

namespace Setup.Sample

open Solver.Sample (alpha home)

/-- A context in the directory of the project. -/
def here : Context :=
  { workingDirectory := "/p", dataHome := "/data", searchPaths := [], config := {} }

/-- A file tree with an empty directory. -/
def files : FileTree := ⟨⟨[(["p"], .directory)], by simp⟩⟩

def options : SetupOptions := { path := ".", root := some "me.io/app", skipsTools := true }

/-- A setup without checkouts, in which the one dependency of the project has one version. -/
def setup (v : Version) : Setup where
  context := here
  sources := { deduceRoot := fun _ => .ok alpha
               listVersions := fun _ => .ok [v]
               sync := fun _ => .ok () }
  lister := fun _ _ => .ok home
  workspace := { directory? := fun _ => none, version := fun _ => .absent }

/-- What is discovered: the dependency is not checked out. -/
def data : ProjectData where
  dependencies := .ofList [(alpha, ["x.io/a"])]
  direct := .ofList [alpha]
  notOnDisk := .ofList [alpha]

def walked : Walk where
  data := { data with dependencies := .ofList [(alpha, ["x.io/a", "x.io/a"])] }
  colors := .ofList [("x.io/a", .black)]
  synced := [alpha]
  log := [.status .searching "workspace for 1 direct imports",
    .detail .info "x.io/a not found in workspace"]

/-- The requirement on the dependency. -/
def required : Requirement := { packages := ["."] }

def begun : SolveState where
  requirements := ⟨[(alpha, required)], by simp⟩
  queue := [alpha]

def locked (v : Version) : LockedProject := ⟨⟨alpha, none⟩, v, ["."]⟩

/-- The manifest that is written. -/
def manifest (c : Constraint) : Manifest :=
  { constraints := ⟨[(alpha, { constraint := c })], by simp⟩ }

/-- The lock that is written. -/
def lock (v : Version) (c : Constraint) : Lock where
  memo := SolveProblem.memo ⟨home, manifest c, Lock.ofProjects [locked v]⟩
    ((setup v).analyzer files)
  projects := [locked v]

theorem directory_files (v : Version) :
  (setup v).directory files options = .ok "/p"
  := by
  have hcanonical : files.canonical (Path.join "/p" ".") = .ok "/p" := by decide
  have hnone : ([Manifest.fileName, Lock.fileName].map (Path.join "/p")).find? files.holds
      = none := by decide
  unfold directory
  simp only [setup, here, options, hcanonical, bind, Except.bind, hnone]

theorem trimSlashes_root :
  trimSlashes "me.io/app" = "me.io/app"
  := by decide

theorem importRoot_files (v : Version) :
  (setup v).importRoot files options "/p" = .ok "me.io/app"
  := by
  have hne : "me.io/app" ≠ "" := by decide
  simp only [importRoot, options, trimSlashes_root, if_neg hne]

theorem discover_home (v : Version) :
  Discovery.discover ⟨(setup v).sources, (setup v).lister, (setup v).workspace⟩ home 1
    = some (.ofWalk (.ok walked))
  := by
  have hreach : home.reach { mains := true, tests := true, propagate := false }
      = (⟨[("me.io/app", { external := ["x.io/a"] })], by simp⟩, ∅) := by cbv
  have hdirect : Discovery.directImports home = ["x.io/a"] := by cbv
  rw [Discovery.discover, hreach, hdirect]
  rfl

theorem externalImports_home {m : Manifest} (hignored : m.ignored = []) (hrequired : m.required = [])
    (l : Lock) :
  SolveProblem.externalImports ⟨home, m, l⟩ = ["x.io/a"]
  := by
  have hhome : SolveProblem.externalImports ⟨home, {}, {}⟩ = ["x.io/a"] := by cbv
  rw [← hhome, SolveProblem.externalImports, SolveProblem.externalImports,
    hignored, hrequired]

theorem solve_home (v : Version) :
  ((setup v).solver files).solve ⟨home, {}, {}⟩ 1 = some ⟨.ok [locked v], []⟩
  := by
  have hselect : (setup v).sources.select ⟨alpha, none⟩ [] {} = .ok v := by
    have hsorted : Version.sortForUpgrade [v] = [v] := List.mergeSort_singleton v
    simp [SourceManager.select, Lock.kept?, Lock.get?, pinnedRevision?, setup, hsorted,
      Version.meets]
  have hstart : ((setup v).solver files).start ⟨home, {}, {}⟩ = .ok begun := by
    rw [Solver.start, externalImports_home rfl rfl]
    rfl
  have hstep : ((setup v).solver files).step ⟨home, {}, {}⟩ alpha { begun with queue := [] }
      = .ok { begun with queue := [], chosen := begun.chosen.insert alpha (⟨alpha, none⟩, v) } :=
    Solver.step_of_absent (r := required) rfl rfl rfl hselect
  have hlocked : LockedProject.of ⟨alpha, none⟩ v ["."] = locked v := by cbv
  rw [Solver.solve, hstart]
  dsimp only
  rw [Solver.run_of_cons rfl hstep, Solver.run_of_nil rfl, ← hlocked]
  rfl

theorem reconcile_home {v : Version} {c : Constraint} (hv : Constraint.ofVersion? v = some c) :
  (Manifest.reconcile {} data {} [locked v]).1 = manifest c
  := by
  have hnew : (data.isNewDirect alpha
      && !(∅ : SortedMap ProjectRoot ProjectRule).contains alpha) = true := by decide
  have hrule : Manifest.impliedRule? data {} (locked v) = some { constraint := c } := by
    have hroot : (locked v).root = alpha := rfl
    have hempty : ({} : Manifest).constraints = ∅ := rfl
    rw [Manifest.impliedRule?, hroot, hempty, if_pos hnew, locked, hv]
    rfl
  have hadded : (({} : Manifest).addProject data (locked v)).1 = manifest c := by
    simp only [Manifest.addProject, hrule]
    rfl
  change (Manifest.prune (({} : Manifest).addProject data (locked v)).1 [locked v]) = _
  rw [hadded]
  rfl

theorem join_manifest :
  Path.join "/p" Manifest.fileName = "/p/Wharf.toml"
  := by decide

theorem join_lock :
  Path.join "/p" Lock.fileName = "/p/Wharf.lock"
  := by decide

theorem save_home (v : Version) (m : Manifest) (l : Lock) :
  ∃ after, (setup v).save files "/p" m l = (.ok (), after)
  := by
  have hfirst (text : String) : (setup v).write files "/p/Wharf.toml" text
      = .ok ⟨files.nodes.insert ["p", "Wharf.toml"] (.file text.toUTF8)⟩ := rfl
  have hsecond (text text' : String) : (setup v).write
      ⟨files.nodes.insert ["p", "Wharf.toml"] (.file text.toUTF8)⟩ "/p/Wharf.lock" text'
      = .ok ⟨(files.nodes.insert ["p", "Wharf.toml"] (.file text.toUTF8)).insert
        ["p", "Wharf.lock"] (.file text'.toUTF8)⟩ := rfl
  simp only [save, join_manifest, join_lock, hfirst, hsecond]
  exact ⟨_, rfl⟩

/-- The setup comes to the point where it saves the manifest and the lock, however files are
written. -/
theorem run_of_save {v : Version} {c : Constraint} (hv : Constraint.ofVersion? v = some c)
    {s : Setup} (hs : s = { setup v with write := s.write }) :
  ∃ log, s.run files options 1 = some (match s.save files "/p" (manifest c) (lock v c) with
    | (.error e, after) => .failed after [alpha] log e
    | (.ok (), after) =>
      { result := .ok (manifest c, lock v c), files := after, synced := [alpha]
        log := log ++ [createdMessage "/p"] })
  := by
  have hlocated : s.directory files options = .ok "/p" := by
    rw [hs]
    apply directory_files v
  have hrooted : s.importRoot files options "/p" = .ok "me.io/app" := by
    rw [hs]
    apply importRoot_files v
  have hlisted : s.lister "/p" "me.io/app" = .ok home := by
    rw [hs]
    rfl
  have hdiscover : Discovery.discover ⟨s.sources, s.lister, s.workspace⟩ home 1
      = some (.ofWalk (.ok walked)) := by
    rw [hs]
    apply discover_home v
  have hnormal : walked.data.normalize = data := by cbv
  have hfound : (Discovery.Outcome.ofWalk (.ok walked)).result = .ok data := by
    rw [← hnormal]
    rfl
  obtain ⟨log, hdraft⟩ : ∃ log, s.draft files options "/p" home data = .ok ⟨{}, {}, log⟩ :=
    ⟨_, rfl⟩
  have hanalyzer : s.analyzer files = (setup v).analyzer files := by
    rw [hs]
    rfl
  have hsolve : (s.solver files).solve ⟨home, {}, {}⟩ 1 = some ⟨.ok [locked v], []⟩ := by
    rw [hs]
    apply solve_home v
  obtain ⟨more, hsettle⟩ : ∃ more, s.settle files home data ⟨{}, {}, log⟩ [locked v]
      = (manifest c, lock v c, more) := by
    simp only [settle]
    rw [reconcile_home hv, hanalyzer]
    exact ⟨_, rfl⟩
  unfold run
  simp only [hlocated, hrooted, hlisted, hdiscover, hfound]
  unfold finish
  simp only [hdraft, hsolve, Option.map_some, hsettle]
  exact ⟨_, rfl⟩

/-- The setup locks the version and constrains the dependency to what the version implies. -/
theorem run_home {v : Version} {c : Constraint} (hv : Constraint.ofVersion? v = some c) :
  ∃ o, (setup v).run files options 1 = some o ∧ o.result = .ok (manifest c, lock v c)
  := by
  obtain ⟨log, hrun⟩ := run_of_save hv (s := setup v) rfl
  obtain ⟨after, hsave⟩ := save_home v (manifest c) (lock v c)
  rw [hsave] at hrun
  exact ⟨_, hrun, rfl⟩

end Setup.Sample
end DepLock
