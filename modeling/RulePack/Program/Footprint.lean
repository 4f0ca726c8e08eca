import RulePack.Program

/-!
# The footprint of a run

To run the program on a part of a disk one has to know which part that is: the paths that a run may
ask about.

* `Program.packageRoots`: the roots at which a run may look for the package;
* `Program.footprint`: the paths that a run may ask about.
-/

namespace RulePack.Program

/-- The paths of a catalog. -/
def catalogPaths (c : Catalog) : List Path := c.rulesDir :: c.rulePaths

/-- The roots at which a run may look for the package. -/
def packageRoots (s : Surroundings) (given : Option Path) (workingPath : Path) : List Path :=
  match given with
  | some root => [(Path.absolute? workingPath root).getD root]
  | none =>
    match s.sources.program with
    | some program => program.strictAncestors ++ [s.sources.builtIn]
    | none => [s.sources.builtIn]

/-- The paths that installing into a directory may ask about, apart from the package. -/
def projectPaths (projectRoot dir : Path) : List Path :=
  let destination := projectRoot.join dir
  projectRoot :: destination :: Rule.all.map (fun r => destination.child r.fileName)
    ++ Config.fileNames.map projectRoot.child

/-- The paths that a run may ask about. -/
def footprint (other : Reader) (s : Surroundings) (words : List (List UInt8))
    (workingPath : Path) : List Path :=
  match read other s.envRoot words with
  | .error _ => []
  | .ok order =>
    let package := (packageRoots s order.packageRoot workingPath).flatMap
      (fun root => catalogPaths (Catalog.ofRoot root))
    match order.action with
    | some (.init dir _) => package ++ projectPaths workingPath dir
    | some .list => package
    | none => []

end RulePack.Program
