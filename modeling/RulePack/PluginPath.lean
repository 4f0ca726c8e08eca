import RulePack.Path
import RulePack.Rule

/-!
# References to rules

A configuration refers to a rule by a plugin path: a text with forward slashes that starts with a
base directory and ends in the name of the rule's file.

* `PluginPath.base`: the base directory that stands for a target directory;
* `PluginPath.ofRule`, `PluginPath.ofRules`: the plugin paths of rules in a base directory.
-/

namespace RulePack.PluginPath

/-- The text with every backslash turned into a slash. -/
def forwardSlashes (text : String) : String :=
  text.map (fun c => if c = '\\' then '/' else c)

/-- Does the first component of the path say that it is relative (one dot or two)? -/
def startsWithDots (p : Path) : Bool :=
  match p.segments with
  | first :: _ => first == Path.here || first == Path.above
  | [] => false

/-- The base directory that stands for a target directory.  A relative one that does not say so
itself is written after `./`. -/
def base (target : Path) : String :=
  let written := forwardSlashes target.shown
  if target.isAbsolute || startsWithDots target then written else "./" ++ written

/-- The text without the slashes at its end. -/
def trimSlashes (text : String) : String :=
  String.ofList (text.toList.reverse.dropWhile (· == '/')).reverse

/-- The plugin path of a rule in a base directory.  Slashes at the end of the base are one slash; a
base of nothing but slashes is the root, and the empty base is left out. -/
def ofRule (base : String) (r : Rule) : String :=
  let trimmed := trimSlashes base
  if trimmed.isEmpty then
    if base.isEmpty then r.fileName else "/" ++ r.fileName
  else trimmed ++ "/" ++ r.fileName

/-- The plugin paths of several rules, in their order. -/
def ofRules (base : String) (rules : List Rule) : List String := rules.map (ofRule base)

/-- The base directory of an installation from the package registry. -/
def packageBase : String := "./node_modules/biome-plugin-react-compiler/rules"

end RulePack.PluginPath
