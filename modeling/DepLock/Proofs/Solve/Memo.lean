import DepLock.Proofs.Constraint
import DepLock.Proofs.Digest.InputStream
import DepLock.Proofs.Order.SortedList
import DepLock.Proofs.Order.SortedMap
import DepLock.Solve.Problem
import Mathlib.Data.List.Permutation

/-!
# What a memo tells apart

The stream that a memo digests determines the rules, the ignored packages and the imports of a
problem, except that a constraint is only known by its text: constraints of different kinds look the
same when their texts are the same (`SolveProblem.inputs_eq_iff`). Roots and sources must not
contain blanks, and no ignored package may be called like the heading of the imports.
-/

namespace DepLock

open InputStream (nul)

/-! ### Constraints that look the same -/

/-- Whether two constraints are of the same kind. -/
def Constraint.SameKind : Constraint → Constraint → Prop
  | .any, .any => True
  | .semver _, .semver _ => True
  | .branch _, .branch _ => True
  | .plain _, .plain _ => True
  | .revision _, .revision _ => True
  | _, _ => False

/-- Whether two constraints are the same, or of different kinds but with the same text. -/
def Constraint.LooksLike (c c' : Constraint) : Prop :=
  c = c' ∨ ¬ c.SameKind c' ∧ c.render = c'.render

theorem Constraint.SameKind.symm {c c' : Constraint} (h : c.SameKind c') :
  c'.SameKind c
  := by
  cases c <;> cases c' <;> first | exact trivial | cases h

theorem Constraint.LooksLike.symm {c c' : Constraint} (h : c.LooksLike c') :
  c'.LooksLike c
  := by
  rcases h with rfl | ⟨hkind, htext⟩
  · exact .inl rfl
  · exact .inr ⟨fun h => hkind h.symm, htext.symm⟩

/-- Well-formed constraints of one kind have different texts. -/
theorem Constraint.eq_of_render_eq {c c' : Constraint} (hc : c.Wellformed) (hc' : c'.Wellformed)
    (hkind : c.SameKind c') (h : c.render = c'.render) :
  c = c'
  := by
  cases c <;> cases c' <;> try cases hkind
  case any.any => rfl
  case semver.semver range range' =>
    rw [SemVer.Range.render_injective (hc range rfl) (hc' range' rfl) h]
  case branch.branch name name' => exact congrArg branch h
  case plain.plain tag tag' => exact congrArg plain h
  case revision.revision r r' =>
    obtain ⟨text⟩ := r
    obtain ⟨text'⟩ := r'
    exact congrArg (revision ∘ Revision.mk) h

/-- Well-formed constraints have the same text exactly if they look the same. -/
theorem Constraint.render_eq_iff {c c' : Constraint} (hc : c.Wellformed) (hc' : c'.Wellformed) :
  c.render = c'.render ↔ c.LooksLike c'
  := by
  constructor
  · intro h
    by_cases hkind : c.SameKind c'
    · exact .inl (eq_of_render_eq hc hc' hkind h)
    · exact .inr ⟨hkind, h⟩
  · rintro (rfl | ⟨-, h⟩)
    · rfl
    · exact h

/-! ### Rules as lines -/

/-- The conditions under which a line tells root, source and constraint: no NUL and no blank in the
root and in the source, no NUL in the constraint, no empty source, and a well-formed range. -/
structure ProjectRule.Separable (root : ProjectRoot) (rule : ProjectRule) : Prop where
  root_nul : nul ∉ root.text.toList
  root_blank : ' ' ∉ root.text.toList
  source_nul : ∀ source ∈ rule.source, nul ∉ source.toList
  source_blank : ∀ source ∈ rule.source, ' ' ∉ source.toList
  source_nonempty : rule.source ≠ some ""
  constraint_nul : nul ∉ rule.constraint.render.toList
  constraint_wellformed : rule.constraint.Wellformed

/-- Whether two rules have the same source and constraints that look the same. -/
structure ProjectRule.LooksLike (rule rule' : ProjectRule) : Prop where
  source : rule.source = rule'.source
  constraint : rule.constraint.LooksLike rule'.constraint

theorem ProjectRule.LooksLike.symm {rule rule' : ProjectRule} (h : rule.LooksLike rule') :
  rule'.LooksLike rule
  := ⟨h.source.symm, h.constraint.symm⟩

namespace SolveProblem

theorem toList_ruleLine (root : ProjectRoot) (rule : ProjectRule) :
  (ruleLine root rule).toList = root.text.toList
    ++ ' ' :: ((rule.source.getD "").toList ++ ' ' :: rule.constraint.render.toList)
  := by
  simp [ruleLine]

theorem not_mem_source {source : Option String} {c : Char} (h : ∀ s ∈ source, c ∉ s.toList) :
  c ∉ (source.getD "").toList
  := by
  cases source with
  | none => simp
  | some s => exact h s rfl

/-- Nonempty sources are told apart by their texts, also from a missing one. -/
theorem source_eq_of_getD_eq {source source' : Option String} (h : source ≠ some "")
    (h' : source' ≠ some "") (heq : source.getD "" = source'.getD "") :
  source = source'
  := by
  cases source <;> cases source' <;> simp_all

/-- Lines are the same for the same root only, and for rules that look the same. -/
theorem ruleLine_eq_iff {root root' : ProjectRoot} {rule rule' : ProjectRule}
    (h : rule.Separable root) (h' : rule'.Separable root') :
  ruleLine root rule = ruleLine root' rule' ↔ root = root' ∧ rule.LooksLike rule'
  := by
  constructor
  · intro hline
    rw [← String.toList_inj, toList_ruleLine, toList_ruleLine] at hline
    obtain ⟨hroot, hline⟩ := Text.append_cons_inj h.root_blank h'.root_blank hline
    obtain ⟨hsource, hconstraint⟩ := Text.append_cons_inj (not_mem_source h.source_blank)
      (not_mem_source h'.source_blank) hline
    rw [String.toList_inj] at hroot hsource hconstraint
    refine ⟨?_, source_eq_of_getD_eq h.source_nonempty h'.source_nonempty hsource, ?_⟩
    · cases root
      cases root'
      cases hroot
      rfl
    · exact (Constraint.render_eq_iff h.constraint_wellformed h'.constraint_wellformed).mp
        hconstraint
  · rintro ⟨rfl, hlooks⟩
    rw [ruleLine, ruleLine, hlooks.source,
      (Constraint.render_eq_iff h.constraint_wellformed h'.constraint_wellformed).mpr
        hlooks.constraint]

/-- The rules of a map, each separable. -/
def RulesSeparable (rules : SortedMap ProjectRoot ProjectRule) : Prop :=
  ∀ root rule, rules.get? root = some rule → rule.Separable root

/-- Whether two maps have rules for the same projects, and those of each project look the same. -/
def RulesLookAlike (rules rules' : SortedMap ProjectRoot ProjectRule) : Prop :=
  ∀ root, Option.Rel ProjectRule.LooksLike (rules.get? root) (rules'.get? root)

theorem mem_ruleLines {rules : SortedMap ProjectRoot ProjectRule} {line : String} :
  line ∈ ruleLines rules ↔ ∃ root rule, rules.get? root = some rule ∧ ruleLine root rule = line
  := by
  simp [ruleLines, SortedMap.get?_eq_some_iff]

/-- A rule finds one that looks the same where its line is among the lines. -/
theorem get?_of_ruleLine_mem {rules rules' : SortedMap ProjectRoot ProjectRule}
    (h : RulesSeparable rules) (h' : RulesSeparable rules')
    (hlines : ∀ line, line ∈ ruleLines rules → line ∈ ruleLines rules') {root : ProjectRoot}
    {rule : ProjectRule} (hrule : rules.get? root = some rule) :
  ∃ rule', rules'.get? root = some rule' ∧ rule.LooksLike rule'
  := by
  obtain ⟨root', rule', hrule', hline⟩ :=
    mem_ruleLines.mp (hlines _ (mem_ruleLines.mpr ⟨root, rule, hrule, rfl⟩))
  obtain ⟨rfl, hlooks⟩ :=
    (ruleLine_eq_iff (h root rule hrule) (h' root' rule' hrule')).mp hline.symm
  exact ⟨rule', hrule', hlooks⟩

theorem RulesLookAlike.symm {rules rules' : SortedMap ProjectRoot ProjectRule}
    (h : RulesLookAlike rules rules') :
  RulesLookAlike rules' rules
  := by
  intro root
  have hrel := h root
  revert hrel
  generalize rules.get? root = rule?
  generalize rules'.get? root = rule'?
  rintro (hlooks | _)
  · exact .some hlooks.symm
  · exact .none

/-- The lines of rules are among those of rules that look alike. -/
theorem mem_ruleLines_of_lookAlike {rules rules' : SortedMap ProjectRoot ProjectRule}
    (h : RulesSeparable rules) (h' : RulesSeparable rules') (halike : RulesLookAlike rules rules')
    {line : String} (hline : line ∈ ruleLines rules) :
  line ∈ ruleLines rules'
  := by
  obtain ⟨root, rule, hrule, rfl⟩ := mem_ruleLines.mp hline
  have hrel := halike root
  rw [hrule] at hrel
  cases hrule' : rules'.get? root with
  | none =>
    rw [hrule'] at hrel
    cases hrel
  | some rule' =>
    rw [hrule'] at hrel
    cases hrel with
    | some hlooks =>
      have hline := (ruleLine_eq_iff (h root rule hrule) (h' root rule' hrule')).mpr ⟨rfl, hlooks⟩
      exact mem_ruleLines.mpr ⟨root, rule', hrule', hline.symm⟩

/-- Two maps have the same lines exactly if their rules look alike. -/
theorem sortDedup_ruleLines_eq_iff {rules rules' : SortedMap ProjectRoot ProjectRule}
    (h : RulesSeparable rules) (h' : RulesSeparable rules') :
  sortDedup (ruleLines rules) = sortDedup (ruleLines rules') ↔ RulesLookAlike rules rules'
  := by
  constructor
  · intro heq root
    have hlines : ∀ line, line ∈ ruleLines rules ↔ line ∈ ruleLines rules' := by
      intro line
      rw [← mem_sortDedup, heq, mem_sortDedup]
    cases hrule : rules.get? root with
    | some rule =>
      obtain ⟨rule', hrule', hlooks⟩ :=
        get?_of_ruleLine_mem h h' (fun line => (hlines line).mp) hrule
      rw [hrule']
      exact .some hlooks
    | none =>
      cases hrule' : rules'.get? root with
      | none => exact .none
      | some rule' =>
        obtain ⟨rule, hsome, -⟩ :=
          get?_of_ruleLine_mem h' h (fun line => (hlines line).mpr) hrule'
        rw [hrule] at hsome
        cases hsome
  · intro halike
    apply sortDedup_congr
    intro line
    exact ⟨mem_ruleLines_of_lookAlike h h' halike, mem_ruleLines_of_lookAlike h' h halike.symm⟩

/-! ### The sections of the stream -/

/-- The conditions under which the stream of a problem can be taken apart: separable rules, and no
NUL in ignored packages and imports. -/
structure Separable (p : SolveProblem) : Prop where
  constraints : RulesSeparable p.manifest.constraints
  overrides : RulesSeparable p.manifest.overrides
  ignored : ∀ path ∈ p.manifest.ignored, nul ∉ path.toList
  imports : ∀ path ∈ p.externalImports, nul ∉ path.toList

variable {p q : SolveProblem} {name : String} {version : Nat}

theorem tokens_inputs (p : SolveProblem) (name : String) (version : Nat) :
  InputStream.tokens (p.inputs name version) =
    "-constraints-" :: (sortDedup (ruleLines p.manifest.constraints) ++
    "-overrides-" :: (sortDedup (ruleLines p.manifest.overrides) ++
    "-ignored-" :: (sortDedup p.manifest.ignored ++
    "-imports-" :: (sortDedup p.externalImports ++ ["-analyzer-", name, toString version]))))
  := by
  simp [inputs, InputStream.tokens, InputStream.Step.tokens]

theorem nul_not_mem_ruleLines {rules : SortedMap ProjectRoot ProjectRule}
    (h : RulesSeparable rules) :
  ∀ line ∈ sortDedup (ruleLines rules), nul ∉ line.toList
  := by
  intro line hline
  obtain ⟨root, rule, hrule, rfl⟩ := mem_ruleLines.mp (mem_sortDedup.mp hline)
  have hsep := h root rule hrule
  have hsource := not_mem_source hsep.source_nul
  have hblank : nul ≠ ' ' := by decide
  simp [toList_ruleLine, hsep.root_nul, hsource, hsep.constraint_nul, hblank]

/-- A token without blanks is no line of a rule. -/
theorem not_mem_ruleLines {heading : String} (h : ' ' ∉ heading.toList)
    (rules : SortedMap ProjectRoot ProjectRule) :
  heading ∉ sortDedup (ruleLines rules)
  := by
  intro hmem
  obtain ⟨root, rule, -, rfl⟩ := mem_ruleLines.mp (mem_sortDedup.mp hmem)
  apply h
  simp [toList_ruleLine]

/-- No token of a separable problem has a NUL in it. -/
theorem Separable.nul_not_mem_inputs (hp : p.Separable) (hname : nul ∉ name.toList) :
  ∀ t ∈ InputStream.tokens (p.inputs name version), nul ∉ t.toList
  := by
  have hheading : ∀ t ∈ ["-constraints-", "-overrides-", "-ignored-", "-imports-", "-analyzer-"],
      nul ∉ t.toList := by decide
  have hversion : nul ∉ (toString version).toList := by
    intro hmem
    rw [Nat.toString_eq_ofList_toDigits, String.toList_ofList] at hmem
    exact absurd (SemVer.isDigit_of_mem_toDigits hmem) (by decide)
  simp only [List.forall_mem_cons] at hheading
  obtain ⟨hconstraints, hoverrides, hignored, himports, hanalyzer, -⟩ := hheading
  rw [tokens_inputs]
  simp only [List.forall_mem_cons, List.forall_mem_append]
  exact ⟨hconstraints, nul_not_mem_ruleLines hp.constraints,
    hoverrides, nul_not_mem_ruleLines hp.overrides,
    hignored, fun t ht => hp.ignored t (mem_sortDedup.mp ht),
    himports, fun t ht => hp.imports t (mem_sortDedup.mp ht),
    hanalyzer, hname, hversion, List.forall_mem_nil _⟩

/-- The imports do not change when they are sorted again. -/
theorem sortDedup_externalImports (p : SolveProblem) :
  sortDedup p.externalImports = p.externalImports
  := by
  unfold externalImports
  split
  apply sortDedup_congr
  simp

/-- The list of ignored packages and the list of imports are told apart by the heading between them,
unless the heading is an ignored package on one side and an import on the other. -/
theorem ignored_imports_inj {ignored imports ignored' imports' : List String} {heading : String}
    (h : heading ∉ ignored ∨ heading ∉ imports') (h' : heading ∉ ignored' ∨ heading ∉ imports)
    (heq : ignored ++ heading :: imports = ignored' ++ heading :: imports') :
  ignored = ignored' ∧ imports = imports'
  := by
  rcases List.append_eq_append_iff.mp heq with ⟨more, hmore, hrest⟩ | ⟨more, hmore, hrest⟩
  · cases more with
    | nil => exact ⟨by rw [hmore, List.append_nil], (List.cons.inj hrest).2⟩
    | cons first more =>
      obtain ⟨rfl, himports⟩ := List.cons.inj hrest
      rw [hmore, himports] at h'
      simp at h'
  · cases more with
    | nil => exact ⟨by rw [hmore, List.append_nil], (List.cons.inj hrest).2.symm⟩
    | cons first more =>
      obtain ⟨rfl, himports⟩ := List.cons.inj hrest
      rw [hmore, himports] at h
      simp at h

/-- Two problems have the same stream exactly if they have the same ignored packages and the same
imports, and rules that look alike. -/
theorem stream_eq_iff (hp : p.Separable) (hq : q.Separable) (hname : nul ∉ name.toList)
    (hpq : "-imports-" ∉ p.manifest.ignored ∨ "-imports-" ∉ q.externalImports)
    (hqp : "-imports-" ∉ q.manifest.ignored ∨ "-imports-" ∉ p.externalImports) :
  (InputStream.render (p.inputs name version)).toUTF8
      = (InputStream.render (q.inputs name version)).toUTF8
    ↔ RulesLookAlike p.manifest.constraints q.manifest.constraints
      ∧ RulesLookAlike p.manifest.overrides q.manifest.overrides
      ∧ (∀ path, path ∈ p.manifest.ignored ↔ path ∈ q.manifest.ignored)
      ∧ p.externalImports = q.externalImports
  := by
  rw [String.toUTF8, String.toUTF8, String.toByteArray_inj]
  constructor
  · intro hstream
    have htokens := InputStream.tokens_eq_of_render_eq (hp.nul_not_mem_inputs hname)
      (hq.nul_not_mem_inputs hname) hstream
    rw [tokens_inputs, tokens_inputs] at htokens
    obtain ⟨hconstraints, htokens⟩ := Text.append_cons_inj
      (not_mem_ruleLines (by decide) _) (not_mem_ruleLines (by decide) _)
      (List.cons.inj htokens).2
    obtain ⟨hoverrides, htokens⟩ := Text.append_cons_inj
      (not_mem_ruleLines (by decide) _) (not_mem_ruleLines (by decide) _) htokens
    simp only [← List.cons_append, ← List.append_assoc] at htokens
    obtain ⟨hignored, himports⟩ := ignored_imports_inj (by simpa using hpq) (by simpa using hqp)
      (List.append_cancel_right htokens)
    rw [sortDedup_externalImports, sortDedup_externalImports] at himports
    refine ⟨(sortDedup_ruleLines_eq_iff hp.constraints hq.constraints).mp hconstraints,
      (sortDedup_ruleLines_eq_iff hp.overrides hq.overrides).mp hoverrides, ?_, himports⟩
    intro path
    rw [← mem_sortDedup, hignored, mem_sortDedup]
  · rintro ⟨hconstraints, hoverrides, hignored, himports⟩
    apply InputStream.render_eq_of_tokens_eq
    rw [tokens_inputs, tokens_inputs,
      (sortDedup_ruleLines_eq_iff hp.constraints hq.constraints).mpr hconstraints,
      (sortDedup_ruleLines_eq_iff hp.overrides hq.overrides).mpr hoverrides,
      sortDedup_congr hignored, himports]

/-! ### One rule, and two kinds of constraints -/

/-- A project that imports another one and has a constraint on it. -/
def constrainedSample (c : Constraint) : SolveProblem where
  tree := ⟨"me.io/app", .ofList [("me.io/app", .ok { name := "app", imports := ["x.io/a"] })]⟩
  manifest := {
    constraints := ⟨[(.ofString "x.io/a", { constraint := c })], by simp⟩
    required := ["y.io/tool"] }
  lock := {}

theorem get?_constrainedSample {c : Constraint} {root : ProjectRoot} {rule : ProjectRule} :
  (constrainedSample c).manifest.constraints.get? root = some rule
    ↔ root = .ofString "x.io/a" ∧ rule = { constraint := c }
  := by
  rw [SortedMap.get?_eq_some_iff]
  simp [constrainedSample]

/-- The imports do not depend on the constraint. -/
theorem externalImports_constrainedSample (c : Constraint) :
  (constrainedSample c).externalImports = ["x.io/a", "y.io/tool"]
  := by
  have hany : (constrainedSample .any).externalImports = ["x.io/a", "y.io/tool"] := by cbv
  exact hany

theorem separable_constrainedSample {c : Constraint} (hc : c.Wellformed)
    (hnul : nul ∉ c.render.toList) :
  (constrainedSample c).Separable
  := by
  have hroot : nul ∉ (ProjectRoot.ofString "x.io/a").text.toList
      ∧ ' ' ∉ (ProjectRoot.ofString "x.io/a").text.toList := by decide
  refine ⟨?_, nofun, nofun, ?_⟩
  · intro root rule hrule
    obtain ⟨rfl, rfl⟩ := get?_constrainedSample.mp hrule
    exact ⟨hroot.1, hroot.2, nofun, nofun, nofun, hnul, hc⟩
  · have himports : ∀ path ∈ ["x.io/a", "y.io/tool"], nul ∉ path.toList := by decide
    rw [externalImports_constrainedSample]
    exact himports

/-- Constraints to different branches have different streams. -/
theorem stream_eq_iff_sample :
  (InputStream.render ((constrainedSample (.branch "master")).inputs "wharf" 1)).toUTF8
    ≠ (InputStream.render ((constrainedSample (.branch "develop")).inputs "wharf" 1)).toUTF8
  := by
  have hmaster : (constrainedSample (.branch "master")).Separable :=
    separable_constrainedSample nofun (by decide)
  have hdevelop : (constrainedSample (.branch "develop")).Separable :=
    separable_constrainedSample nofun (by decide)
  have hheading (c : Constraint) : "-imports-" ∉ (constrainedSample c).manifest.ignored := nofun
  intro hstream
  obtain ⟨halike, -⟩ := (stream_eq_iff hmaster hdevelop (by decide) (.inl (hheading _))
    (.inl (hheading _))).mp hstream
  have hrel := halike (.ofString "x.io/a")
  have hget (c : Constraint) : (constrainedSample c).manifest.constraints.get?
      (.ofString "x.io/a") = some { constraint := c } := get?_constrainedSample.mpr ⟨rfl, rfl⟩
  rw [hget, hget] at hrel
  cases hrel with
  | some hlooks =>
    rcases hlooks.constraint with hsame | ⟨hkind, -⟩
    · simp at hsame
    · exact hkind trivial

/-- Constraints to a branch and to a tag of the same name have the same stream. -/
theorem stream_eq_of_kinds :
  (constrainedSample (.branch "stable")).manifest.constraints
      ≠ (constrainedSample (.plain "stable")).manifest.constraints
    ∧ (InputStream.render ((constrainedSample (.branch "stable")).inputs "wharf" 1)).toUTF8
      = (InputStream.render ((constrainedSample (.plain "stable")).inputs "wharf" 1)).toUTF8
  := by
  have hinputs : (constrainedSample (.branch "stable")).inputs "wharf" 1
      = (constrainedSample (.plain "stable")).inputs "wharf" 1 := rfl
  refine ⟨?_, by rw [hinputs]⟩
  decide

end SolveProblem
end DepLock
