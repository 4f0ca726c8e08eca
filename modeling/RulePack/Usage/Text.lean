import RulePack.Text.Terminal
import RulePack.Usage.Invocation
import RulePack.Usage.Similar

/-!
# Help and complaints

What the program says about its own use.  The texts come without a newline at their end, and what
the user has written appears in them without control sequences.

* `Usage.helpText`: the help text on a topic;
* `Usage.versionText`: the version;
* `Usage.Tip`, `Usage.Complaint.tip?`: a hint that goes with a complaint;
* `Usage.Complaint.text`: a complaint with its hint and the usage line that goes with it.
-/

namespace RulePack.Usage

open Text

/-- Lines as one text. -/
def paragraph (lines : List String) : String := "\n".intercalate lines

/-! ### Help -/

/-- What the program is for. -/
def about : String := "React Compiler lint rules for Biome, packaged as GritQL plugins"

/-- What the commands are for. -/
def aboutInit : String := "Copy plugin rules to your project and update biome.json"

def aboutList : String := "List available rules"

def aboutHelp : String := "Print this message or the help of the given subcommand(s)"

/-- The environment variable that gives the package root. -/
def variableName : String := "BIOME_REACT_COMPILER_ROOT"

/-- What a scope is about. -/
def Scope.topic : Scope → Topic
  | program => .program
  | init => .init
  | list => .list

/-- The usage line of a topic. -/
def usageLine : Topic → String
  | .program => "Usage: " ++ Scope.program.typed ++ " [OPTIONS] [COMMAND]"
  | .init => "Usage: " ++ Scope.init.typed ++ " [OPTIONS]"
  | .list => "Usage: " ++ Scope.list.typed ++ " [OPTIONS]"
  | .help => "Usage: " ++ programName ++ " help [COMMAND]..."

/-- The start of a line below the explanation of an option. -/
def hangingIndent : String := String.ofList (List.replicate 37 ' ')

/-- The text with its lines, but the first one, indented. -/
def indented (text : String) : String :=
  String.ofList
    (text.toList.flatMap fun c => if c = '\n' then '\n' :: hangingIndent.toList else [c])

/-- The value of the variable in a help text, with what stands behind it up to the next name of an
option.  A control sequence that the value leaves open goes on until there. -/
def shownValue (g : Terminal.Grain) (envRoot : Option String) : String :=
  Terminal.visible g (indented (envRoot.getD "") ++ "]\n      ")

/-- The lines on the options that are known everywhere; they show the value of the variable. -/
def commonOptions (g : Terminal.Grain) (envRoot : Option String) : List String :=
  ["      --package-root <PACKAGE_ROOT>  "
      ++ "Package root containing the bundled rules/ directory [env: "
      ++ variableName ++ "=" ++ shownValue g envRoot
      ++ "--log-level <LOG_LEVEL>        "
      ++ "Set log level [default: warn] [possible values: error, warn, info, debug, trace]",
    "  -h, --help                         Print help"]

/-- The help text on a topic. -/
def helpText (g : Terminal.Grain) (envRoot : Option String) : Topic → String
  | .program => paragraph <|
    [about, "", usageLine .program, "",
      "Commands:",
      "  init  " ++ aboutInit,
      "  list  " ++ aboutList,
      "  help  " ++ aboutHelp,
      "",
      "Options:"]
    ++ commonOptions g envRoot
    ++ ["  -V, --version                      Print version",
      "",
      "Examples:",
      "  biome-plugin-react-compiler init",
      "  biome-plugin-react-compiler init --dir ./rules",
      "  biome-plugin-react-compiler list"]
  | .init => paragraph <|
    [aboutInit, "", usageLine .init, "",
      "Options:",
      "      --dir <DIR>                    Target directory for rules [default: biome-plugins]",
      "      --no-update                    Don't update biome.json"]
    ++ commonOptions g envRoot
  | .list =>
    paragraph ([aboutList, "", usageLine .list, "", "Options:"] ++ commonOptions g envRoot)
  | .help => paragraph
    [aboutHelp, "",
      usageLine .help, "",
      "Arguments:",
      "  [COMMAND]...  Print help for the subcommand(s)"]

/-- The version. -/
def versionText : String := programName ++ " 0.1.0"

/-! ### Hints -/

/-- A hint that goes with a complaint. -/
inductive Tip where
  /-- A command was kept from being one by two dashes. -/
  | dropDashes (command : String)
  /-- An option is one of a command that comes later. -/
  | moveBehind (command option : String)
  /-- An option has almost that name. -/
  | similarOption (option : String)
  /-- A value is almost that word. -/
  | similarValue (value : String)
  /-- Some commands, at least one, have almost that name. -/
  | similarCommands (commands : List String)
  deriving DecidableEq, Repr

/-- The names of all commands. -/
def commandNames : List String := ["init", "list", "help"]

/-- The hint for an option that is not known.  Before any command it may be almost an option of the
command that follows; only one command has options that are not known everywhere. -/
def optionTip? (s : Scope) (name : String) (rest : List String) : Option Tip :=
  match closest? name (s.options.map Opt.name) with
  | some option => some (.similarOption option)
  | none =>
    if s = .program ∧ "init" ∈ rest then
      (closest? name (Scope.init.options.map Opt.name)).map (.moveBehind "init")
    else none

/-- The hint that goes with a complaint. -/
def Complaint.tip? : Complaint → Option Tip
  | unknownCommand word =>
    match similar word commandNames with
    | [] => none
    | commands => some (.similarCommands commands)
  | shieldedCommand command => some (.dropDashes command)
  | unknownOption s name _ rest => optionTip? s name rest
  | unknownLevel word => (closest? word (Level.all.map Level.word)).map .similarValue
  | _ => none

/-- A hint as a text. -/
def Tip.text : Tip → String
  | dropDashes command =>
    "  tip: subcommand '" ++ command ++ "' exists; to use it, remove the '--' before it"
  | moveBehind command option => "  tip: '" ++ command ++ " --" ++ option ++ "' exists"
  | similarOption option => "  tip: a similar argument exists: '--" ++ option ++ "'"
  | similarValue value => "  tip: a similar value exists: '" ++ value ++ "'"
  | similarCommands [command] => "  tip: a similar subcommand exists: '" ++ command ++ "'"
  | similarCommands commands =>
    "  tip: some similar subcommands exist: "
      ++ ", ".intercalate (commands.map fun c => "'" ++ c ++ "'")

/-! ### Complaints -/

/-- What the user has written, as a complaint repeats it. -/
def quotedWord (word : String) : String := "'" ++ Terminal.visible .bytes word ++ "'"

/-- The line on the levels that there are. -/
def levelsLine : String :=
  "  [possible values: " ++ ", ".intercalate (Level.all.map Level.word) ++ "]"

/-- The lines that say what is wrong. -/
def Complaint.lines : Complaint → List String
  | unknownCommand word | unknownTopic _ word =>
    ["error: unrecognized subcommand " ++ quotedWord word]
  | unexpected _ word | shieldedCommand word =>
    ["error: unexpected argument " ++ quotedWord word ++ " found"]
  | unknownOption _ name _ _ =>
    ["error: unexpected argument " ++ quotedWord ("--" ++ name) ++ " found"]
  | missingValue option =>
    ("error: a value is required for '" ++ option.shown ++ "' but none was supplied")
      :: if option = .logLevel then [levelsLine] else []
  | unknownLevel word =>
    ["error: invalid value " ++ quotedWord word ++ " for '" ++ Opt.logLevel.shown ++ "'",
      levelsLine]
  | repeated _ option =>
    ["error: the argument '" ++ option.shown ++ "' cannot be used multiple times"]
  | needlessValue _ option value _ =>
    ["error: unexpected value " ++ quotedWord value ++ " for '" ++ option.shown
      ++ "' found; no more were expected"]

/-- The usage line that shows parts of what was given; without any it is the general one. -/
def usageWith (s : Scope) (parts : List String) : String :=
  match parts with
  | [] => usageLine s.topic
  | parts => "Usage: " ++ " ".intercalate (s.typed :: parts)

/-- The options that were given before one that is not known; one that it is almost the name of
counts as given. -/
def partsOfUnknown (s : Scope) (name : String) (given : List Opt) (rest : List String) :
    List String :=
  let meant : List Opt :=
    match optionTip? s name rest with
    | some (.similarOption option) => (s.option? option).toList.filter (· ∉ given)
    | _ => []
  (given ++ meant).map Opt.shown

/-- The options that were given, with a flag that was given a value.  When one of a group was given,
the whole group stands for its members, behind all others. -/
def partsOfNeedless (s : Scope) (o : Opt) (given : List Opt) : List String :=
  let used := if o ∈ given then given else given ++ [o]
  if given.any (· ∈ s.group) then
    (used.filter (· ∉ s.group)).map Opt.shown
      ++ ["<" ++ "|".intercalate (s.group.map Opt.shown) ++ ">"]
  else used.map Opt.shown

/-- The usage line that goes with a complaint; there is none about values. -/
def Complaint.usage? : Complaint → Option String
  | unknownCommand _ | shieldedCommand _ => some (usageLine .program)
  | unknownTopic topic _ => some (usageLine topic)
  | unexpected s _ => some (usageLine s.topic)
  | unknownOption s name given rest => some (usageWith s (partsOfUnknown s name given rest))
  | repeated s _ => some (usageLine s.topic)
  | needlessValue s o _ given => some (usageWith s (partsOfNeedless s o given))
  | missingValue _ | unknownLevel _ => none

/-- The way to the help text; the command for help has no such option. -/
def Complaint.pointer : Complaint → List String
  | unknownTopic .help _ => []
  | _ => ["", "For more information, try '--help'."]

/-- A complaint, with its hint, the usage line and the way to the help text. -/
def Complaint.text (c : Complaint) : String :=
  let tip : List String :=
    match c.tip? with
    | some tip => ["", tip.text]
    | none => []
  let usage : List String :=
    match c.usage? with
    | some line => ["", line]
    | none => []
  paragraph (c.lines ++ tip ++ usage ++ c.pointer)

end RulePack.Usage
