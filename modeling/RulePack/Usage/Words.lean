import RulePack.Event

/-!
# The words of the command line

The program and each of its commands know some options; an option is given with two dashes and its
name, and some take a value.

* `Usage.Scope`, `Usage.Opt`: where options are given, and the options;
* `Usage.Scope.options`: the options that are known somewhere;
* `Usage.Word`, `Usage.Word.ofText`: an argument by its dashes.
-/

namespace RulePack.Usage

/-- The name of the program. -/
def programName : String := "biome-plugin-react-compiler"

/-- Where options are given: before any command, or behind one. -/
inductive Scope where
  | program
  | init
  | list
  deriving DecidableEq, Repr

/-- An option. -/
inductive Opt where
  | dir
  | noUpdate
  | packageRoot
  | logLevel
  | help
  | version
  deriving DecidableEq, Repr

namespace Opt

/-- The name of an option, without dashes. -/
def name : Opt → String
  | dir => "dir"
  | noUpdate => "no-update"
  | packageRoot => "package-root"
  | logLevel => "log-level"
  | help => "help"
  | version => "version"

/-- Does the option take a value? -/
def takesValue : Opt → Bool
  | dir | packageRoot | logLevel => true
  | noUpdate | help | version => false

/-- The option with its value, as messages show it. -/
def shown : Opt → String
  | dir => "--dir <DIR>"
  | noUpdate => "--no-update"
  | packageRoot => "--package-root <PACKAGE_ROOT>"
  | logLevel => "--log-level <LOG_LEVEL>"
  | help => "--help"
  | version => "--version"

end Opt

namespace Scope

/-- The options that are known in a scope. -/
def options : Scope → List Opt
  | program => [.packageRoot, .logLevel, .help, .version]
  | init => [.dir, .noUpdate, .packageRoot, .logLevel, .help]
  | list => [.packageRoot, .logLevel, .help]

/-- The options that are shown together when one of them has been given. -/
def group : Scope → List Opt
  | program => [.packageRoot, .logLevel]
  | init => [.dir, .noUpdate]
  | list => []

/-- The option of a name. -/
def option? (s : Scope) (name : String) : Option Opt :=
  s.options.find? (fun o => o.name == name)

/-- The option of a letter behind a single dash. -/
def letter? (s : Scope) (c : Char) : Option Opt :=
  if c = 'h' then some .help
  else if c = 'V' ∧ s = .program then some .version
  else none

/-- The command of a scope, as it is typed. -/
def typed : Scope → String
  | program => programName
  | init => programName ++ " init"
  | list => programName ++ " list"

end Scope

/-- An argument by its dashes. -/
inductive Word where
  /-- Two dashes alone, which end the options. -/
  | dashes
  /-- Two dashes, a name, and what stands behind the first equals sign, if there is one. -/
  | long (name : String) (value : Option String)
  /-- One dash and the first letter behind it. -/
  | short (letter : Char)
  /-- Any other text, a single dash among them. -/
  | plain (text : String)
  deriving DecidableEq, Repr

/-- A text up to its first equals sign, and what stands behind that. -/
def splitEquals (cs : List Char) : List Char × Option (List Char) :=
  match cs.dropWhile (· != '=') with
  | [] => (cs, none)
  | _ :: value => (cs.takeWhile (· != '='), some value)

/-- An argument by its dashes. -/
def Word.ofText (text : String) : Word :=
  match text.toList with
  | ['-', '-'] => .dashes
  | '-' :: '-' :: cs =>
    let (name, value) := splitEquals cs
    .long (String.ofList name) (value.map String.ofList)
  | '-' :: c :: _ => .short c
  | _ => .plain text

end RulePack.Usage
