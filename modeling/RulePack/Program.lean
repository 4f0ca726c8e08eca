import RulePack.Command
import RulePack.Package
import RulePack.Usage.Text

/-!
# The program

The program reads its arguments, finds the package, and performs a command.

Arguments are bytes.  Where all of them are texts, and the environment variable is one too, they are
read as `Usage.parse` reads them.  How any others are read is left open: the program is the same
whatever the reader makes of them.  Both outputs are taken to be writable.

* `Program.Surroundings`: what the program knows besides its arguments and the disk;
* `Program.Order`: what the program is to do, with paths in bytes;
* `Program.Stop`: why it is not going to do anything;
* `Program.Reader`, `Program.read`: the arguments as an order;
* `Program.Outcome`: what the program leaves behind: the disk, two outputs and an exit status;
* `Program.perform`: the command of an order;
* `Program.run`: the whole program.
-/

namespace RulePack.Program

/-- What the program knows besides its arguments and the disk: the environment variable for the
package root, and where else packages are looked for. -/
structure Surroundings where
  envRoot : Option (List UInt8)
  sources : Package.Sources
  deriving DecidableEq, Repr

/-! ### Arguments -/

/-- A command with its options. -/
inductive Action where
  | init (dir : Path) (noUpdate : Bool)
  | list
  deriving DecidableEq, Repr

/-- What the program is to do. -/
structure Order where
  action : Option Action
  packageRoot : Option Path
  logLevel : Level
  deriving DecidableEq, Repr

/-- Why the program is not going to do anything: it has been asked for a text, which is the help or the
version, or there is a complaint about the arguments. -/
inductive Stop where
  | asked (text : String)
  | refused (complaint : String)
  deriving DecidableEq, Repr

/-- An action whose directory is a text. -/
def Action.ofUsage : Usage.Action → Action
  | .init dir noUpdate => .init (Path.ofText dir) noUpdate
  | .list => .list

/-- An invocation by texts. -/
def Order.ofInvocation (i : Usage.Invocation) : Order :=
  ⟨i.action.map Action.ofUsage, i.packageRoot.map Path.ofText, i.logLevel⟩

/-- What is said instead of a command. -/
def Stop.ofHalt (envRoot : Option String) : Usage.Halt → Stop
  | .help topic => .asked (Usage.helpText .bytes envRoot topic)
  | .version => .asked Usage.versionText
  | .refused complaint => .refused complaint.text

/-- A reader of the value of the environment variable and of the arguments. -/
abbrev Reader := Option (List UInt8) → List (List UInt8) → Except Stop Order

/-- The text that the variable is, if it is one or is not set. -/
def valueText? : Option (List UInt8) → Option (Option String)
  | none => some none
  | some bytes => (Text.ofBytes? bytes).map some

/-- The texts that the arguments are, if all of them are. -/
def texts? : List (List UInt8) → Option (List String)
  | [] => some []
  | word :: rest =>
    match Text.ofBytes? word, texts? rest with
    | some text, some texts => some (text :: texts)
    | _, _ => none

/-- A reader that refuses everything, for where no arguments come but texts. -/
def textsOnly : Reader := fun _ _ =>
  .error (.refused "error: invalid UTF-8 was detected in one or more arguments")

/-- Reads texts. -/
def readTexts (envRoot : Option String) (words : List String) : Except Stop Order :=
  match Usage.parse envRoot words with
  | .error halt => .error (.ofHalt envRoot halt)
  | .ok invocation => .ok (.ofInvocation invocation)

/-- Reads the arguments; the given reader is for those that are not texts. -/
def read (other : Reader) (envRoot : Option (List UInt8)) (words : List (List UInt8)) :
    Except Stop Order :=
  match valueText? envRoot, texts? words with
  | some envRoot, some words => readTexts envRoot words
  | _, _ => other envRoot words

/-- What the program leaves behind. -/
structure Outcome where
  disk : Disk
  out : String
  err : String
  status : Nat
  deriving DecidableEq, Repr

/-! ### Texts instead of a command -/

/-- The help text, as it is shown when nobody has asked for it. -/
def help (s : Surroundings) : String :=
  Usage.helpText .characters (s.envRoot.map Text.shown) .program

/-- What is said instead of a command, and with which exit status.  Only complaints fail, and they
come with the help text. -/
def halted (s : Surroundings) : Stop → Transcript × Nat
  | .asked text => ([.out text], 0)
  | .refused complaint => ([.err complaint, .err "", .err (help s), .err ""], 1)

/-! ### Commands -/

/-- The name of a command. -/
def actionName : Action → String
  | .init _ _ => Command.initName
  | .list => Command.listName

/-- What is said when a command has failed. -/
def failureLines : Failure → Transcript
  | .nothingCopied => [.err "", .err Failure.nothingCopied.message]
  | failure => [.err ("Error: " ++ failure.report)]

/-- What is said when there is no working directory to install into. -/
def strandedLine (fault : Fault) : Line :=
  .err ("Error: Failed to determine current directory: " ++ fault.message)

/-- A command with the rules of a package.  The rules are installed into the working directory, which
has to be there. -/
def act (action : Action) (package : Package) (d : Disk) : Except Fault Performance :=
  match action with
  | .init dir noUpdate =>
    match d.currentPath with
    | .error fault => .error fault
    | .ok projectRoot => .ok (Command.init ⟨package.catalog, projectRoot⟩ ⟨dir, !noUpdate⟩ d)
  | .list => .ok (Command.list d)

/-- How a command ends. -/
def conclude (action : Action) (performance : Performance) : Disk × Transcript × Nat :=
  match performance.result with
  | .error failure => (performance.disk, performance.lines ++ failureLines failure, 1)
  | .ok conclusion =>
    let concluded : Transcript :=
      match conclusion.message with
      | some message => [.log (.concluded (actionName action) message)]
      | none => []
    (performance.disk, performance.lines ++ concluded, conclusion.exitStatus)

/-- A command, from finding the package to the exit status. -/
def perform (action : Action) (root : Option Path) (sources : Package.Sources) (d : Disk) :
    Disk × Transcript × Nat :=
  let (package, found) := Package.discover root sources d
  let (disk, lines, status) :=
    match act action package d with
    | .error fault => (d, [strandedLine fault], 1)
    | .ok performance => conclude action performance
  (disk, .log (.running (actionName action)) :: found.map .log ++ lines, status)

/-- What an order does.  Without a command it shows the help text. -/
def obey (s : Surroundings) (order : Order) (d : Disk) : Disk × Transcript × Nat :=
  match order.action with
  | none => (d, [.out (help s), .out ""], 0)
  | some action => perform action order.packageRoot s.sources d

/-- The whole program. -/
def run (other : Reader) (s : Surroundings) (words : List (List UInt8)) (d : Disk) : Outcome :=
  match read other s.envRoot words with
  | .error stop =>
    let (lines, status) := halted s stop
    ⟨d, lines.out, lines.errSilent, status⟩
  | .ok order =>
    let (disk, lines, status) := obey s order d
    ⟨disk, lines.out, lines.err order.logLevel, status⟩

end RulePack.Program
