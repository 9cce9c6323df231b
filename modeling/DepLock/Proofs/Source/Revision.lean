import DepLock.Proofs.Version
import DepLock.Source.Inference

/-!
# The version for a revision

`Inference.matchRevision` stays at the revision. It takes the first listed version there that the
constraint admits, or else pairs the branch that is asked for with the revision, or else takes the
first listed version there, or else the revision alone (`Inference.matchRevision_first`).
-/

namespace DepLock

namespace Version

variable {v w : Version} {vs : List Version}

/-- Whether a version has a revision that is named by another. -/
def IsAt (v : Version) (r : Revision) : Prop :=
  ∃ r', v.revision? = some r' ∧ r'.isNamedBy r.text = true

/-- Whether a version is the branch of a name. -/
def IsBranch (v : Version) (name : String) : Prop :=
  ∃ isDefault, v.ref? = some (.branch name isDefault)

end Version

namespace Inference

open Version

variable {v w : Version} {versions : List Version} {constraint : Option Constraint} {r : Revision}
  {name : String}

theorem isAt_iff :
  isAt r v = true ↔ v.IsAt r
  := by
  simp [isAt, IsAt, Option.any_eq_true]

/-- A revision names itself. -/
theorem isAt_of_revision? (h : v.revision? = some r) :
  isAt r v = true
  := by
  simp [isAt, h, Revision.isNamedBy]

theorem isBranch_iff :
  isBranch name v = true ↔ v.IsBranch name
  := by
  simp only [isBranch, Constraint.admits, IsBranch]
  split
  next n isDefault href => simp [href]
  next hnot =>
    constructor
    · rintro ⟨⟩
    · rintro ⟨isDefault, href⟩
      exact absurd href (hnot name isDefault)

/-- The branch that a constraint asks for is looked for among the versions. -/
theorem branchRef?_branch (name : String) (versions : List Version) :
  branchRef? (some (.branch name)) versions = (versions.find? (isBranch name)).bind Version.ref?
  := by
  induction versions with
  | nil => rfl
  | cons v versions ih =>
    simp only [branchRef?] at ih ⊢
    rw [List.findSome?_cons, List.find?_cons, ih]
    cases href : v.ref? with
    | none => simp [isBranch, Constraint.admits, href]
    | some ref =>
      cases ref with
      | branch n isDefault =>
        by_cases hn : n = name <;> simp [isBranch, Constraint.admits, href, hn]
      | semver tag version => simp [isBranch, Constraint.admits, href]
      | plain tag => simp [isBranch, Constraint.admits, href]

/-- Whether some listed version at a revision is admitted by the constraint. -/
def Admitted (versions : List Version) (constraint : Option Constraint) (r : Revision) : Prop :=
  ∃ c w, constraint = some c ∧ w ∈ versions ∧ w.IsAt r ∧ c.admits w = true

/-- Whether the constraint asks for a branch that is listed. -/
def BranchListed (versions : List Version) (constraint : Option Constraint) : Prop :=
  ∃ name w, constraint = some (.branch name) ∧ w ∈ versions ∧ w.IsBranch name

/-- Nothing is found among the admitted versions at a revision exactly if there are none. -/
theorem find?_eq_none_iff_not_admitted :
  (constraint.bind fun c => ((sortForUpgrade versions).filter (isAt r)).find? c.admits) = none ↔
    ¬ Admitted versions constraint r
  := by
  rw [Option.bind_eq_none_iff, Admitted]
  simp only [List.find?_eq_none, List.mem_filter, mem_sortForUpgrade, isAt_iff]
  push Not
  constructor
  · intro h c w hc hw hat
    exact h c hc w ⟨hw, hat⟩
  · intro h c hc w hw
    exact h c w hc hw.1 hw.2

/-- The branch that a constraint asks for is the first of this name, if it is listed. -/
theorem branchRef?_cases (versions : List Version) (constraint : Option Constraint) :
  (∃ name w isDefault, constraint = some (.branch name) ∧ First versions (·.IsBranch name) w ∧
      w.ref? = some (.branch name isDefault) ∧
      branchRef? constraint (sortForUpgrade versions) = some (.branch name isDefault)) ∨
    (¬ BranchListed versions constraint ∧
      branchRef? constraint (sortForUpgrade versions) = none)
  := by
  by_cases hbranch : ∃ name, constraint = some (.branch name)
  · obtain ⟨name, rfl⟩ := hbranch
    rw [branchRef?_branch]
    cases hfind : (sortForUpgrade versions).find? (isBranch name) with
    | some w =>
      obtain ⟨isDefault, href⟩ := isBranch_iff.1 (List.find?_some hfind)
      left
      use name, w, isDefault, rfl
      refine ⟨?_, href, href⟩
      simpa only [isBranch_iff] using first_of_find? hfind
    | none =>
      right
      refine ⟨?_, rfl⟩
      rintro ⟨name', w, hname, hw, hbranch⟩
      cases hname
      apply List.find?_eq_none.1 hfind w (mem_sortForUpgrade.2 hw) (isBranch_iff.2 hbranch)
  · right
    constructor
    · rintro ⟨name, w, hname, -⟩
      exact hbranch ⟨name, hname⟩
    · unfold branchRef?
      split
      next name => exact absurd ⟨name, rfl⟩ hbranch
      next => rfl

/-- How the version for a revision is found: among the listed ones at the revision that are
admitted, or else by the branch that is asked for, or else among all listed ones at the revision, or
else by the revision alone. -/
theorem matchRevision_cases (versions : List Version) (constraint : Option Constraint)
    (r : Revision) :
  (∃ c, constraint = some c ∧ First versions (fun w => w.IsAt r ∧ c.admits w = true)
      (matchRevision versions constraint r)) ∨
    (¬ Admitted versions constraint r ∧
      ((∃ name w isDefault, constraint = some (.branch name) ∧
          First versions (·.IsBranch name) w ∧ w.ref? = some (.branch name isDefault) ∧
          matchRevision versions constraint r = .paired (.branch name isDefault) r) ∨
        (¬ BranchListed versions constraint ∧
          (First versions (·.IsAt r) (matchRevision versions constraint r) ∨
            ((∀ w ∈ versions, ¬ w.IsAt r) ∧ matchRevision versions constraint r = .bare r)))))
  := by
  simp only [matchRevision]
  split
  next v hfound =>
    left
    obtain ⟨c, rfl, hfind⟩ := Option.bind_eq_some_iff.1 hfound
    use c, rfl
    rw [List.find?_filter] at hfind
    simpa [isAt_iff] using first_of_find? hfind
  next hnone =>
    right
    use find?_eq_none_iff_not_admitted.1 hnone
    rcases branchRef?_cases versions constraint with
      ⟨name, w, isDefault, hc, hfirst, href, hbranch⟩ | ⟨hbranch, hnone⟩
    · left
      use name, w, isDefault, hc, hfirst, href
      rw [hbranch]
    · right
      use hbranch
      rw [hnone, List.head?_filter]
      cases hfind : (sortForUpgrade versions).find? (isAt r) with
      | some v =>
        left
        rw [Option.getD_some]
        simpa only [isAt_iff] using first_of_find? hfind
      | none =>
        right
        refine ⟨?_, rfl⟩
        intro w hw hat
        apply List.find?_eq_none.1 hfind w (mem_sortForUpgrade.2 hw) (isAt_iff.2 hat)

/-- The version for a revision is at the revision. -/
theorem isAt_matchRevision (versions : List Version) (constraint : Option Constraint)
    (r : Revision) :
  (matchRevision versions constraint r).IsAt r
  := by
  rcases matchRevision_cases versions constraint r with
    ⟨c, -, hfirst⟩ | ⟨-, ⟨name, w, isDefault, -, -, -, heq⟩ | ⟨-, hfirst | ⟨-, heq⟩⟩⟩
  · apply hfirst.holds.1
  · rw [heq]
    apply isAt_iff.1 (isAt_of_revision? rfl)
  · apply hfirst.holds
  · rw [heq]
    apply isAt_iff.1 (isAt_of_revision? rfl)

/-- The version for a revision is at the revision. If a listed version there is admitted by the
constraint, it is the first of these. Otherwise, if the constraint asks for a branch that is listed,
it is the first branch of this name, paired with the revision, and admitted. Otherwise it is the
first listed version there; and exactly if there is none it is not listed, but the bare revision. -/
theorem matchRevision_first (versions : List Version) (constraint : Option Constraint)
    (r : Revision) :
  let v := matchRevision versions constraint r
  v.IsAt r ∧
  (∀ c, constraint = some c → (∃ w ∈ versions, w.IsAt r ∧ c.admits w = true) →
    First versions (fun w => w.IsAt r ∧ c.admits w = true) v) ∧
  (¬ Admitted versions constraint r →
    (∀ name, constraint = some (.branch name) → (∃ w ∈ versions, w.IsBranch name) →
      ∃ w isDefault, First versions (·.IsBranch name) w ∧
        w.ref? = some (.branch name isDefault) ∧ v = .paired (.branch name isDefault) r ∧
        (Constraint.branch name).admits v = true) ∧
    (¬ BranchListed versions constraint →
      ((∃ w ∈ versions, w.IsAt r) → First versions (·.IsAt r) v) ∧
      ((∀ w ∈ versions, ¬ w.IsAt r) ↔ v = .bare r ∧ v ∉ versions)))
  := by
  intro v
  have hat : v.IsAt r := isAt_matchRevision versions constraint r
  refine ⟨hat, ?admitted, ?others⟩
  case admitted =>
    rintro c rfl ⟨w, hw, hwat, hadmits⟩
    rcases matchRevision_cases versions (some c) r with ⟨c', hc, hfirst⟩ | ⟨hnot, -⟩
    · cases hc
      apply hfirst
    · exact absurd ⟨c, w, rfl, hw, hwat, hadmits⟩ hnot
  case others =>
    intro hnot
    have hcases := (matchRevision_cases versions constraint r).resolve_left <| by
      rintro ⟨c, hc, hfirst⟩
      exact hnot ⟨c, _, hc, hfirst.listed, hfirst.holds⟩
    rcases hcases.2 with ⟨name, w, isDefault, hc, hfirst, href, heq⟩ | ⟨hbranch, hcases⟩
    · constructor
      · intro name' hname' _
        rw [hc, Option.some.injEq, Constraint.branch.injEq] at hname'
        subst hname'
        use w, isDefault, hfirst, href, heq
        simp [v, heq, Constraint.admits, Version.ref?]
      · intro hbranch
        exact absurd ⟨name, w, hc, hfirst.listed, hfirst.holds⟩ hbranch
    · constructor
      · rintro name hname ⟨w, hw, hwbranch⟩
        exact absurd ⟨name, w, hname, hw, hwbranch⟩ hbranch
      · intro _
        rcases hcases with hfirst | ⟨hnone, heq⟩
        · refine ⟨fun _ => hfirst, ?_⟩
          constructor
          · intro hnone
            exact absurd hfirst.holds (hnone v hfirst.listed)
          · rintro ⟨-, hlisted⟩
            exact absurd hfirst.listed hlisted
        · constructor
          · rintro ⟨w, hw, hwat⟩
            exact absurd hwat (hnone w hw)
          · refine ⟨fun _ => ⟨heq, fun hlisted => hnone v hlisted hat⟩, fun _ => hnone⟩

namespace Sample

/-- Two tags at one revision and a branch at another. -/
def tagged : List Version := [
  .paired (.branch "develop" false) ⟨"436f39d"⟩, .paired (.ofTag "stable") ⟨"ff2948a"⟩,
  .paired (.ofTag "v1.0.0") ⟨"ff2948a"⟩]

end Sample

theorem matchRevision_first_sample :
  let stable : Constraint := .plain "stable"
  let develop : Constraint := .branch "develop"
  ((∃ w ∈ Sample.tagged, w.IsAt ⟨"ff2948a"⟩ ∧ stable.admits w = true) ∧
    stable.admits (matchRevision Sample.tagged (some stable) ⟨"ff2948a"⟩) = true) ∧
  (¬ Admitted Sample.tagged (some develop) ⟨"ff2948a"⟩ ∧
    (∃ w ∈ Sample.tagged, w.IsBranch "develop") ∧
    ∃ isDefault, matchRevision Sample.tagged (some develop) ⟨"ff2948a"⟩
      = .paired (.branch "develop" isDefault) ⟨"ff2948a"⟩) ∧
  ¬ Admitted Sample.tagged none ⟨"abc"⟩ ∧ ¬ BranchListed Sample.tagged none ∧
    (∀ w ∈ Sample.tagged, ¬ w.IsAt ⟨"abc"⟩) ∧
    matchRevision Sample.tagged none ⟨"abc"⟩ = .bare ⟨"abc"⟩ ∧
    (∃ w ∈ Sample.tagged, w.IsAt ⟨"436f39d"⟩) ∧
    matchRevision Sample.tagged none ⟨"436f39d"⟩ ∈ Sample.tagged
  := by
  intro stable develop
  have hnotAdmitted : ¬ Admitted Sample.tagged (some develop) ⟨"ff2948a"⟩ := by
    rintro ⟨c, w, hc, hw, hat, hadmits⟩
    cases hc
    have hnot : ∀ w ∈ Sample.tagged, isAt ⟨"ff2948a"⟩ w = true → develop.admits w = false := by
      decide
    rw [hnot w hw (isAt_iff.2 hat)] at hadmits
    cases hadmits
  have hnone (r : Revision) : ¬ Admitted Sample.tagged none r := by
    rintro ⟨c, w, hc, -⟩
    cases hc
  have hnoBranch : ¬ BranchListed Sample.tagged none := by
    rintro ⟨name, w, hc, -⟩
    cases hc
  have hnowhere : ∀ w ∈ Sample.tagged, ¬ w.IsAt ⟨"abc"⟩ := by
    simp only [← isAt_iff]
    decide
  have hstable : ∃ w ∈ Sample.tagged, w.IsAt ⟨"ff2948a"⟩ ∧ stable.admits w = true := by
    simp only [← isAt_iff]
    decide
  have hmaster : ∃ w ∈ Sample.tagged, w.IsAt ⟨"436f39d"⟩ := by
    simp only [← isAt_iff]
    decide
  have hdevelop : ∃ w ∈ Sample.tagged, w.IsBranch "develop" := by
    simp only [← isBranch_iff]
    decide
  obtain ⟨-, hadmitted, -⟩ := matchRevision_first Sample.tagged (some stable) ⟨"ff2948a"⟩
  obtain ⟨-, -, hothers⟩ := matchRevision_first Sample.tagged (some develop) ⟨"ff2948a"⟩
  obtain ⟨-, isDefault, -, -, hpaired, -⟩ := (hothers hnotAdmitted).1 "develop" rfl hdevelop
  obtain ⟨-, -, hbare⟩ := matchRevision_first Sample.tagged none ⟨"abc"⟩
  obtain ⟨-, -, hfirst⟩ := matchRevision_first Sample.tagged none ⟨"436f39d"⟩
  exact ⟨⟨hstable, (hadmitted stable rfl hstable).holds.2⟩,
    ⟨hnotAdmitted, hdevelop, isDefault, hpaired⟩, hnone _, hnoBranch, hnowhere,
    (((hbare (hnone _)).2 hnoBranch).2.1 hnowhere).1, hmaster,
    (((hfirst (hnone _)).2 hnoBranch).1 hmaster).listed⟩

end Inference
end DepLock
