import RulePack.Catalog
import RulePack.Event

/-!
# Packages

A package is a directory with a catalog.  Its root is given, or it is the nearest directory above
the program that holds rules, or it is the root that was fixed when the program was built.

* `Package.rootAbove`: the nearest directory above a path that holds rules;
* `Package.givenRoot`: a given root, made absolute if that is possible;
* `Package.discover`: the root of the package, and what happened when it was found.
-/

namespace RulePack

/-- The root of a package. -/
structure Package where
  root : Path
  deriving DecidableEq, Repr

namespace Package

/-- The catalog of a package. -/
def catalog (p : Package) : Catalog := Catalog.ofRoot p.root

/-- Does the package at a root hold a rule? -/
def holdsRules (d : Disk) (root : Path) : Bool :=
  Rule.all.any (fun r => (Catalog.ofRoot root).holdsRule d r)

/-- The nearest directory above a path that holds rules. -/
def rootAbove (d : Disk) (path : Path) : Option Path := path.strictAncestors.find? (holdsRules d)

/-- A given root, made absolute if that is possible.  For a relative one the working directory has to
be there. -/
def givenRoot (d : Disk) (root : Path) : Path :=
  if root.isAbsolute || d.isReached d.workingDir then
    (Path.absolute? d.workingPath root).getD root
  else root

/-- Where packages are looked for: above the program, if its path is known, and at a fixed root. -/
structure Sources where
  program : Option Path
  builtIn : Path
  deriving DecidableEq, Repr

/-- The package to take the rules from. -/
def discover (given : Option Path) (sources : Sources) (d : Disk) : Package × List Event :=
  match given with
  | some root =>
    let root := givenRoot d root
    (⟨root⟩, [.rootGiven root])
  | none =>
    match sources.program.bind (rootAbove d) with
    | some root => (⟨root⟩, [.rootFound root])
    | none => (⟨sources.builtIn⟩, [])

end Package

end RulePack
