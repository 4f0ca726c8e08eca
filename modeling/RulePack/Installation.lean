import RulePack.Catalog
import RulePack.Config
import RulePack.Disk.Change
import RulePack.Event

/-!
# Installing rules into a project

An installation copies the files of the catalog's rules into a directory of a project and registers
them in the project's configuration.

* `Installation`: a catalog and a project;
* `Installation.copyRules`: copying the files that are there;
* `Installation.locateConfig`: the configuration file of a project;
* `Registration`, `Installation.register`: naming the rules in the configuration;
* `Installation.install`, `Report`: both together, and what there is to tell.
-/

namespace RulePack

/-- A catalog and the root of the project that its rules are to be installed in. -/
structure Installation where
  catalog : Catalog
  projectRoot : Path
  deriving DecidableEq, Repr

/-- What to install, and where. -/
structure Request where
  dir : Path
  register : Bool
  deriving DecidableEq, Repr

/-- What is installed where nothing else is asked for. -/
def Request.default : Request := ⟨Path.ofText "biome-plugins", true⟩

/-- How the rules were registered. -/
inductive Registration where
  /-- In a configuration that was there; `added` are the plugins that it lacked. -/
  | updated (path : Path) (added : List String)
  /-- In a configuration that was made. -/
  | created (path : Path)
  /-- Not at all, since the configuration that is there could not be updated. -/
  | skipped (path : Path) (reason : String) (plugins : List String)
  deriving DecidableEq, Repr

/-- What an installation did. -/
structure Report where
  dir : Path
  copied : List Rule
  plugins : List String
  registration : Option Registration
  deriving DecidableEq, Repr

namespace Installation

/-! ### Copying the files -/

/-- Copies the files of the given rules, as far as they are there, and gives the rules whose files
are in the destination then.  A file that would be copied to itself is left alone. -/
def place (i : Installation) (destination : Path) : List Rule → Disk → Run (List Rule)
  | [], d => Run.done [] d
  | r :: rest, d =>
    let source := i.catalog.rulePath r
    let target := destination.child r.fileName
    if d.isFile source then
      if d.sameFile source target then
        ((place i destination rest d).map (r :: ·)).noting (.ruleInPlace target)
      else
        match d.copy source target with
        | .error fault => ⟨d, [], .error (.disk target fault)⟩
        | .ok copied =>
          ((place i destination rest copied).map (r :: ·)).noting (.ruleCopied source target)
    else (place i destination rest d).noting (.ruleAbsent r)

section
variable {i : Installation} {destination : Path} {r : Rule} {rest : List Rule} {d : Disk}

theorem place_absent (hfile : d.isFile (i.catalog.rulePath r) = false) :
    i.place destination (r :: rest) d = (i.place destination rest d).noting (.ruleAbsent r) := by
  simp [place, hfile]

variable (hfile : d.isFile (i.catalog.rulePath r) = true)
include hfile

theorem place_inPlace
    (hsame : d.sameFile (i.catalog.rulePath r) (destination.child r.fileName) = true) :
    i.place destination (r :: rest) d
      = ((i.place destination rest d).map (r :: ·)).noting
        (.ruleInPlace (destination.child r.fileName)) := by
  simp [place, hfile, hsame]

variable (hsame : d.sameFile (i.catalog.rulePath r) (destination.child r.fileName) = false)
include hsame

theorem place_failed {fault : Fault}
    (hcopy : d.copy (i.catalog.rulePath r) (destination.child r.fileName) = .error fault) :
    i.place destination (r :: rest) d
      = ⟨d, [], .error (.disk (destination.child r.fileName) fault)⟩ := by
  simp [place, hfile, hsame, hcopy]

theorem place_copied {copied : Disk}
    (hcopy : d.copy (i.catalog.rulePath r) (destination.child r.fileName) = .ok copied) :
    i.place destination (r :: rest) d
      = ((i.place destination rest copied).map (r :: ·)).noting
        (.ruleCopied (i.catalog.rulePath r) (destination.child r.fileName)) := by
  simp [place, hfile, hsame, hcopy]

end

/-- The directory that a target directory stands for: an absolute one for itself, any other one
within the project. -/
def destination (i : Installation) (dir : Path) : Path := i.projectRoot.join dir

/-- Makes the destination if nothing is there. -/
def prepare (destination : Path) (d : Disk) : Run Unit :=
  if d.holds destination then Run.done () d
  else
    let attempt := d.makeDirectories destination
    match attempt.fault with
    | some fault => ⟨attempt.disk, [], .error (.disk destination fault)⟩
    | none => (Run.done () attempt.disk).noting (.directoryMade destination)

/-- A list of copied rules, unless it is empty. -/
def someCopied (rules : List Rule) (d : Disk) : Run (List Rule) :=
  match rules with
  | [] => ⟨d, [], .error .nothingCopied⟩
  | _ :: _ => Run.done rules d

/-- Copies the files of the catalog's rules into a directory and gives the rules whose files are
there then, in catalog order. -/
def copyRules (i : Installation) (dir : Path) (d : Disk) : Run (List Rule) :=
  if i.catalog.isBundled d then
    let destination := i.destination dir
    ((prepare destination d).andThen fun _ d => i.place destination Rule.all d).andThen someCopied
  else ⟨d, [], .error (.missingRules i.catalog.rulesDir)⟩

/-! ### Registering the rules -/

/-- The plugin paths of rules in a target directory. -/
def pluginsFor (dir : Path) (rules : List Rule) : List String :=
  PluginPath.ofRules (PluginPath.base dir) rules

/-- The configuration file of a project. -/
def locateConfig (projectRoot : Path) (d : Disk) : Option Path :=
  (Config.fileNames.map projectRoot.child).find? d.isFile

/-- The configuration that a file holds. -/
def loadConfig (path : Path) (d : Disk) : Except Failure Config :=
  match d.readText path with
  | .error fault => .error (.disk path fault)
  | .ok text => Config.parse path text

/-- Writes a configuration to its file. -/
def saveConfig (c : Config) (d : Disk) : Run Unit :=
  match d.write c.path (Text.bytes c.text) with
  | .error fault => ⟨d, [], .error (.disk c.path fault)⟩
  | .ok written => Run.done () written

/-- Adds plugins to the configuration in a file and gives those that it lacked. -/
def updateConfig (path : Path) (plugins : List String) (d : Disk) : Run (List String) :=
  match loadConfig path d with
  | .error failure => ⟨d, [], .error failure⟩
  | .ok config =>
    match config.merge plugins with
    | .error failure => ⟨d, [], .error failure⟩
    | .ok (merged, added) =>
      ((saveConfig merged d).map (fun _ => added)).noting
        (.merging plugins.length path added.length)

/-- Writes a new configuration that names the plugins. -/
def createConfig (path : Path) (plugins : List String) (d : Disk) : Run Registration :=
  (saveConfig (Config.initial path plugins) d).andThen fun _ d =>
    (Run.done (.created path) d).noting (.configMade path)

/-- Names rules in the configuration of the project, which is made if there is none.  That an
existing one cannot be updated is no failure. -/
def register (i : Installation) (dir : Path) (rules : List Rule) (d : Disk) : Run Registration :=
  let plugins := pluginsFor dir rules
  match locateConfig i.projectRoot d with
  | none => createConfig (Config.defaultPath i.projectRoot) plugins d
  | some path =>
    let update := updateConfig path plugins d
    match update.result with
    | .ok added =>
      ⟨update.disk, update.events ++ [.configUpdated path added.length],
        .ok (.updated path added)⟩
    | .error failure =>
      ⟨update.disk, update.events ++ [.configFailed path failure],
        .ok (.skipped path failure.message plugins)⟩

/-! ### Both together -/

/-- Names the rules in the configuration if that is asked for. -/
def registerIf (i : Installation) (request : Request) (copied : List Rule) (d : Disk) :
    Run (Option Registration) :=
  if request.register then (i.register request.dir copied d).map some
  else (Run.done none d).noting .configLeft

/-- Copies the files of the rules and registers the rules. -/
def install (i : Installation) (request : Request) (d : Disk) : Run Report :=
  (i.copyRules request.dir d).andThen fun copied d =>
    (i.registerIf request copied d).map fun registration =>
      { dir := request.dir, copied, plugins := pluginsFor request.dir copied, registration }

section
variable {i : Installation} {request : Request} {d : Disk}

theorem install_of_failure {failure : Failure}
    (h : (i.copyRules request.dir d).result = .error failure) :
    (i.install request d).disk = (i.copyRules request.dir d).disk
      ∧ (i.install request d).result = .error failure := by
  rw [install, Run.andThen_of_error h]
  exact ⟨rfl, rfl⟩

theorem install_of_copied {copied : List Rule}
    (h : (i.copyRules request.dir d).result = .ok copied) :
    (i.install request d).disk
        = (i.registerIf request copied (i.copyRules request.dir d).disk).disk
      ∧ (i.install request d).result
        = ((i.registerIf request copied (i.copyRules request.dir d).disk).map
          fun registration => Report.mk request.dir copied (pluginsFor request.dir copied)
            registration).result := by
  rw [install, Run.andThen_of_ok h]
  exact ⟨rfl, rfl⟩

variable {copied : List Rule}

theorem registerIf_of_register (h : request.register = true) :
    i.registerIf request copied d = (i.register request.dir copied d).map some := by
  rw [registerIf, if_pos h]

theorem registerIf_of_not_register (h : request.register = false) :
    i.registerIf request copied d = (Run.done none d).noting .configLeft := by
  rw [registerIf, if_neg (by simp [h])]

end

end Installation

end RulePack
