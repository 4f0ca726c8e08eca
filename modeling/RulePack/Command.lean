import RulePack.Installation
import RulePack.Transcript

/-!
# Commands

A command acts on a disk, speaks, and comes to a conclusion or fails.  A failure that is not fatal
becomes a warning.

* `Conclusion`: how a command ends that does not fail;
* `Performance`: what a command leaves behind;
* `Command.init`, `Command.list`: installing the rules, and listing them;
* `Command.soften`: what becomes of failures that are not fatal.
-/

namespace RulePack

/-- How a command ends that does not fail. -/
inductive Conclusion where
  | success (message : Option String)
  | warning (message : String)
  deriving DecidableEq, Repr

namespace Conclusion

/-- The message of a conclusion. -/
def message : Conclusion → Option String
  | success message => message
  | warning message => some message

/-- The exit status of a conclusion: a warning is no failure. -/
def exitStatus : Conclusion → Nat
  | success _ => 0
  | warning _ => 0

end Conclusion

/-- What a command leaves behind. -/
structure Performance where
  disk : Disk
  lines : Transcript
  result : Except Failure Conclusion

namespace Command

/-- The conclusion of a command in place of a failure that is not fatal. -/
def soften (command : String) (result : Except Failure Conclusion) :
    Except Failure Conclusion × List Event :=
  match result with
  | .error failure =>
    if failure.isFatal then (.error failure, [])
    else (.ok (.warning failure.message), [.softened command failure])
  | .ok conclusion => (.ok conclusion, [])

/-- The performance of a command whose failures are softened. -/
def softened (command : String) (p : Performance) : Performance :=
  let (result, events) := soften command p.result
  { p with lines := p.lines ++ events.map .log, result }

/-! ### Installing -/

/-- What is said before the installation. -/
def opening (dir : Path) : Transcript :=
  [.out "Installing biome-plugin-react-compiler...", .out "",
    .out ("Target directory: " ++ dir.shown), .out ""]

/-- What is said of the copied rules. -/
def copiedLines (copied : List Rule) : Transcript :=
  copied.map (fun r => .out ("  Copied: " ++ r.fileName))
    ++ [.out "", .out ("Copied " ++ copied.length.repr ++ " rules."), .out ""]

/-- What is said of the registration. -/
def registrationLines (plugins : List String) : Option Registration → Transcript
  | none =>
    [.out "Skipped biome.json update. Add plugins manually:", .out (PluginList.block plugins)]
  | some (.created path) => [.out ("Created: " ++ path.shown)]
  | some (.updated path added) =>
    if added.isEmpty then [.out (path.shown ++ " already references every plugin.")]
    else [.out ("Updated: " ++ path.shown)]
  | some (.skipped path reason plugins) =>
    [.err ("Error updating " ++ path.shown ++ ": " ++ reason),
      .out "Manually add these plugins to your biome.json:", .out (PluginList.block plugins)]

/-- What is said at the end. -/
def closing : Transcript := [.out "", .out "Done! Run 'biome lint .' to check your code."]

/-- How an installation is concluded. -/
def conclusionOf : Option Registration → Conclusion
  | some (.skipped path _ _) => .warning (path.shown ++ " was not updated")
  | _ => .success none

/-- The name of the command that installs. -/
def initName : String := "init"

/-- Installs the rules. -/
def init (i : Installation) (request : Request) (d : Disk) : Performance :=
  let run := i.install request d
  let noted : Transcript := run.events.map .log
  softened initName <|
    match run.result with
    | .error failure => ⟨run.disk, opening request.dir ++ noted, .error failure⟩
    | .ok report =>
      { disk := run.disk
        lines := opening request.dir ++ noted
          ++ [.log (.installed report.copied.length report.dir)] ++ copiedLines report.copied
          ++ registrationLines report.plugins report.registration ++ closing
        result := .ok (conclusionOf report.registration) }

/-! ### Listing -/

/-- The name of the command that lists. -/
def listName : String := "list"

/-- Lists the names of the rules. -/
def list (d : Disk) : Performance :=
  softened listName ⟨d, Rule.all.map (fun r => .out r.name), .ok (.success none)⟩

end Command

end RulePack
