import RulePack.Disk.Walk
import RulePack.Failure
import RulePack.PluginPath

/-!
# Catalogs on a disk

A package keeps the files of the rules in one directory.  The catalog knows where each file should
be; whether it is there is up to the disk.

* `Catalog`, `Catalog.ofRoot`: the catalog of a package;
* `Catalog.rulePath`, `Catalog.pathOf`: where the file of a rule should be;
* `Catalog.isBundled`, `Catalog.holdsRule`, `Catalog.readRule`: what is there.
-/

namespace RulePack

/-- The directory that should hold the files of the rules. -/
structure Catalog where
  rulesDir : Path
  deriving DecidableEq, Repr

namespace Catalog

/-- The name of the directory of rules in a package. -/
def dirName : String := "rules"

/-- The catalog of the package at a root. -/
def ofRoot (root : Path) : Catalog := ⟨root.child dirName⟩

/-- The path of a rule's file. -/
def rulePath (c : Catalog) (r : Rule) : Path := c.rulesDir.child r.fileName

/-- The paths of all rules, in catalog order. -/
def rulePaths (c : Catalog) : List Path := Rule.all.map c.rulePath

/-- The path of the rule that a text names. -/
def pathOf (c : Catalog) (name : String) : Except Failure Path :=
  match Rule.ofText? name with
  | some r => .ok (c.rulePath r)
  | none => .error (.unknownRule name)

/-- Is there a directory of rules? -/
def isBundled (c : Catalog) (d : Disk) : Bool := d.isDirectory c.rulesDir

/-- Is there a file for the rule? -/
def holdsRule (c : Catalog) (d : Disk) (r : Rule) : Bool := d.isFile (c.rulePath r)

/-- The text of the rule that a text names. -/
def readRule (c : Catalog) (d : Disk) (name : String) : Except Failure String :=
  match c.pathOf name with
  | .error failure => .error failure
  | .ok path =>
    if d.isFile path then (d.readText path).mapError (.disk path) else .error (.unknownRule name)

end Catalog

end RulePack
