import DepLock.Proofs.Package.Declarations
import DepLock.Proofs.Solve.Memo

/-!
# Problems declared in other words

The order in which imports, ignored packages and required packages are declared, how often they are,
and what a lock says have no influence on what there is to solve and on its memo.
-/

namespace DepLock.SolveProblem

/-- Problems with the same rules and the same ignored and required packages, over alike trees. -/
structure Redeclares (p p' : SolveProblem) : Prop where
  tree : p.tree.Alike p'.tree
  constraints : p.manifest.constraints = p'.manifest.constraints
  overrides : p.manifest.overrides = p'.manifest.overrides
  ignored : ∀ path, path ∈ p.manifest.ignored ↔ path ∈ p'.manifest.ignored
  required : ∀ path, path ∈ p.manifest.required ↔ path ∈ p'.manifest.required

variable {p p' : SolveProblem}

/-- The imports to solve do not depend on the order of declaration. -/
theorem Redeclares.externalImports_eq (h : p.Redeclares p') :
  p.externalImports = p'.externalImports
  := by
  have hoptions : ReachOptions.Alike
      { mains := true, tests := true, propagate := false, ignored := p.manifest.ignored }
      { mains := true, tests := true, propagate := false, ignored := p'.manifest.ignored } :=
    ⟨rfl, rfl, rfl, h.ignored⟩
  simp only [externalImports, h.tree.reach_eq hoptions]
  apply sortDedup_congr
  intro path
  rw [List.mem_append, List.mem_append, h.required]

/-- The memo does not depend on the order of declaration, nor on the lock. -/
theorem memo_of_redeclares (h : p.Redeclares p') {analyzer analyzer' : Analyzer}
    (hname : analyzer.name = analyzer'.name) (hversion : analyzer.version = analyzer'.version) :
  p.memo analyzer = p'.memo analyzer'
  := by
  have htokens : InputStream.tokens (p.inputs analyzer.name analyzer.version)
      = InputStream.tokens (p'.inputs analyzer'.name analyzer'.version) := by
    rw [tokens_inputs, tokens_inputs, h.constraints, h.overrides, sortDedup_congr h.ignored,
      h.externalImports_eq, hname, hversion]
  rw [memo, memo, InputStream.digest, InputStream.digest,
    InputStream.render_eq_of_tokens_eq htokens]

namespace Sample

/-- A project whose command imports its other two packages, declared in some order. -/
def declaring (imports ignored required : List String) (lock : Lock) : SolveProblem where
  tree := {
    root := "me.io/app"
    packages := .ofList [
      ("me.io/app", .ok { name := "main", imports, testImports := ["z.io/c", "z.io/c"] }),
      ("me.io/app/left", .ok { name := "left", imports := ["x.io/a", "me.io/app"] }),
      ("me.io/app/right", .ok { name := "right", imports := ["me.io/app/left", "y.io/b"] })] }
  manifest := { ignored, required }
  lock

theorem redeclares_declaring {imports imports' ignored ignored' required required' : List String}
    (himports : ∀ path, path ∈ imports ↔ path ∈ imports')
    (hignored : ∀ path, path ∈ ignored ↔ path ∈ ignored')
    (hrequired : ∀ path, path ∈ required ↔ path ∈ required') (lock lock' : Lock) :
  (declaring imports ignored required lock).Redeclares
    (declaring imports' ignored' required' lock')
  := by
  refine ⟨⟨rfl, ?_⟩, rfl, rfl, hignored, hrequired⟩
  intro path
  simp only [declaring, SortedMap.ofList, List.foldl, SortedMap.get?_insert]
  split
  · exact .some (.package ⟨rfl, fun _ => Iff.rfl, fun _ => Iff.rfl⟩)
  · split
    · exact .some (.package ⟨rfl, fun _ => Iff.rfl, fun _ => Iff.rfl⟩)
    · split
      · exact .some (.package ⟨rfl, himports, fun _ => Iff.rfl⟩)
      · exact .none

end Sample

theorem memo_of_redeclares_sample :
  let analyzer : Analyzer := { name := "wharf", version := 1, derive := fun _ _ => {} }
  let p := Sample.declaring ["me.io/app/right", "me.io/app/left"] ["y.io/*", "w.io/d"]
    ["u.io/f", "u.io/e"] {}
  let p' := Sample.declaring ["me.io/app/left", "me.io/app/right", "me.io/app/left"]
    ["w.io/d", "y.io/*", "w.io/d"] ["u.io/e", "u.io/f", "u.io/e"]
    { projects := [⟨⟨.ofString "x.io/a", none⟩, .named (.ofTag "v1.0.0"), ["."]⟩] }
  p.Redeclares p' ∧ p.memo analyzer = p'.memo analyzer
  := by
  intro analyzer p p'
  have hredeclares : p.Redeclares p' := by
    apply Sample.redeclares_declaring
    · grind
    · grind
    · grind
  use hredeclares
  apply memo_of_redeclares hredeclares rfl rfl

end DepLock.SolveProblem
