import DepLock.Console.Log
import DepLock.Digest.InputStream
import DepLock.Lock.Basic
import DepLock.Manifest.Basic
import DepLock.Package.Reach

/-!
# Problems for the solver

A `SolveProblem` is a project's package tree with its manifest and its lock. The external imports
of the tree, with the manifest's ignored and required packages taken into account, are what has to
be solved. `SolveProblem.memo` digests everything that a solution depends on, except the lock.
-/

namespace DepLock

/-- What the configuration of a dependency says, and what was told to the user on the way. A
dependency without readable configuration has no result. -/
structure Derivation where
  result : Option (Manifest × Lock) := none
  log : Log := []

/-- A reader of the configuration of dependencies. -/
structure Analyzer where
  name : String
  version : Nat
  derive : String → ProjectRoot → Derivation

/-- What there is to solve. -/
structure SolveProblem where
  tree : PackageTree
  manifest : Manifest
  lock : Lock

namespace SolveProblem

/-- The root of the project that is solved. -/
def root (p : SolveProblem) : ProjectRoot := p.tree.projectRoot

/-- The imports to solve: those that leave the tree, without the standard library and what the
manifest ignores, and what the manifest requires. -/
def externalImports (p : SolveProblem) : List String :=
  let (reach, _) := p.tree.reach
    { mains := true, tests := true, propagate := false, ignored := p.manifest.ignored }
  sortDedup (reach.externalImports false ++ p.manifest.required)

/-- A rule as a line of the memo. -/
def ruleLine (root : ProjectRoot) (rule : ProjectRule) : String :=
  root.text ++ " " ++ rule.source.getD "" ++ " " ++ rule.constraint.render

/-- The rules of a map as lines of the memo. -/
def ruleLines (rules : SortedMap ProjectRoot ProjectRule) : List String :=
  rules.toList.map fun (root, rule) => ruleLine root rule

/-- The inputs of a solve in the order in which they are digested. -/
def inputs (p : SolveProblem) (analyzerName : String) (analyzerVersion : Nat) :
    List InputStream.Step := [
  .heading "constraints", .sorted (ruleLines p.manifest.constraints),
  .heading "overrides", .sorted (ruleLines p.manifest.overrides),
  .heading "ignored", .sorted p.manifest.ignored,
  .heading "imports", .sorted p.externalImports,
  .heading "analyzer", .text analyzerName, .text (toString analyzerVersion)]

/-- The digest of the inputs of a solve. -/
def memo (p : SolveProblem) (analyzer : Analyzer) : String :=
  InputStream.digest (p.inputs analyzer.name analyzer.version)

end SolveProblem
end DepLock
