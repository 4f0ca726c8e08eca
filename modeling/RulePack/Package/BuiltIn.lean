import RulePack.Catalog
import RulePack.Disk.Change
import RulePack.Rule.Source

/-!
# The built-in package

The texts of the rules are part of the program.  Where no other package is found they are taken from
a package that holds just these texts.

* `Package.provide`: a disk with the built-in package at a root.
-/

namespace RulePack.Package

/-- The disk with the text of a rule in a catalog, if it can be written there. -/
def provideRule (c : Catalog) (d : Disk) (r : Rule) : Disk :=
  match d.write (c.rulePath r) (Text.bytes r.source) with
  | .ok written => written
  | .error _ => d

/-- The disk with the texts of all rules in a package at the root. -/
def provide (root : Path) (d : Disk) : Disk :=
  let c := Catalog.ofRoot root
  Rule.all.foldl (provideRule c) (d.makeDirectories c.rulesDir).disk

end RulePack.Package
