import RulePack.Usage.Words

/-!
# Invocations

The arguments of the program are read from left to right.  They make an invocation, or they ask for
a help text or the version, or there is a complaint about them.

An option whose value is an argument of its own is settled only when the next option, or the end of
its scope, comes; a complaint about an argument that is not known comes before that.  A complaint
keeps what is needed to say more about it: the options given so far and the arguments that follow.

* `Usage.Invocation`: what the program is to do;
* `Usage.Halt`, `Usage.Complaint`: why it is not going to do anything;
* `Usage.Given`, `Usage.Given.settle`: the options of a scope so far;
* `Usage.readScope`: the arguments of a scope;
* `Usage.parse`: all arguments, with the value of the environment variable for the package root.
-/

namespace RulePack.Usage

/-! ### What the arguments ask for -/

/-- A command with its options. -/
inductive Action where
  | init (dir : String) (noUpdate : Bool)
  | list
  deriving DecidableEq, Repr

/-- What the program is to do. -/
structure Invocation where
  action : Option Action
  packageRoot : Option String
  logLevel : Level
  deriving DecidableEq, Repr

/-- What a help text can be about. -/
inductive Topic where
  | program
  | init
  | list
  | help
  deriving DecidableEq, Repr

/-- What is wrong with the arguments. -/
inductive Complaint where
  /-- A word stands where a command should, and is none. -/
  | unknownCommand (word : String)
  /-- There is no help on a word within a topic. -/
  | unknownTopic (within : Topic) (word : String)
  /-- A command stands behind two dashes, which keep it from being one. -/
  | shieldedCommand (command : String)
  /-- A word or letter stands where none is expected. -/
  | unexpected (scope : Scope) (word : String)
  /-- No option has that name; `given` are the options before it, `rest` the arguments behind. -/
  | unknownOption (scope : Scope) (name : String) (given : List Opt) (rest : List String)
  | missingValue (option : Opt)
  | unknownLevel (word : String)
  | repeated (scope : Scope) (option : Opt)
  /-- A flag was given a value; `given` are the options before it. -/
  | needlessValue (scope : Scope) (option : Opt) (value : String) (given : List Opt)
  deriving DecidableEq, Repr

/-- Why the program is not going to do anything. -/
inductive Halt where
  | help (topic : Topic)
  | version
  | refused (complaint : Complaint)
  deriving DecidableEq, Repr

/-! ### The options of a scope -/

/-- The options of a scope so far, in order, flags with an empty value; and the option that is not
settled yet, with its value if that has come. -/
structure Given where
  settled : List (Opt × String)
  pending : Option (Opt × Option String)
  deriving DecidableEq, Repr

namespace Given

/-- No options. -/
def none : Given := ⟨[], .none⟩

/-- Has the option been given? -/
def has (g : Given) (o : Opt) : Bool := g.settled.any (fun (p, _) => p = o)

/-- The value of an option. -/
def value? (g : Given) (o : Opt) : Option String :=
  (g.settled.find? (fun (p, _) => p = o)).map Prod.snd

/-- The options that are settled, in order. -/
def options (g : Given) : List Opt := g.settled.map Prod.fst

/-- The options in order when the pending one, if its value has come, is taken for given whatever
the value is.  One that had been given before is dropped. -/
def optionsWithPending (g : Given) : List Opt :=
  match g.pending with
  | some (o, some _) => if g.has o then g.options.filter (· ≠ o) else g.options ++ [o]
  | _ => g.options

/-- Is the next argument a value? -/
def awaitsValue (g : Given) : Bool :=
  match g.pending with
  | some (_, .none) => true
  | _ => false

/-- The options with one more.  It must be the first of its kind, a value must not be empty, and a
level must be known. -/
def accept (s : Scope) (g : Given) (o : Opt) (value : String) : Except Halt Given :=
  if g.has o then .error (.refused (.repeated s o))
  else if o.takesValue ∧ value.isEmpty then .error (.refused (.missingValue o))
  else if o = .logLevel ∧ (Level.ofWord? value).isNone then
    .error (.refused (.unknownLevel value))
  else .ok ⟨g.settled ++ [(o, value)], .none⟩

/-- The options with the pending one settled. -/
def settle (s : Scope) (g : Given) : Except Halt Given :=
  match g.pending with
  | .none => .ok g
  | some (o, .none) => .error (.refused (.missingValue o))
  | some (o, some value) => accept s g o value

end Given

/-! ### The arguments of a scope -/

/-- The scope of a command. -/
def commandScope? (word : String) : Option Scope :=
  if word = "init" then some .init else if word = "list" then some .list else none

/-- Is the text the name of a command, the one for help among them? -/
def isCommand (word : String) : Bool := (commandScope? word).isSome || word == "help"

/-- What an option that takes no value does when it is given. -/
def flag (s : Scope) (g : Given) (o : Opt) : Except Halt Given :=
  match g.settle s with
  | .error halt => .error halt
  | .ok g =>
    match o, s with
    | .help, .program => .error (.help .program)
    | .help, .init => .error (.help .init)
    | .help, .list => .error (.help .list)
    | .version, _ => .error .version
    | _, _ => g.accept s o ""

/-- What an option with two dashes does when it is given. -/
def long (s : Scope) (g : Given) (o : Opt) (value : Option String) : Except Halt Given :=
  match o.takesValue, value with
  | true, some value =>
    match g.settle s with
    | .error halt => .error halt
    | .ok g => g.accept s o value
  | true, none =>
    match g.settle s with
    | .error halt => .error halt
    | .ok g => .ok { g with pending := some (o, none) }
  | false, some value => .error (.refused (.needlessValue s o value g.options))
  | false, none => flag s g o

/-- The complaint about an argument that stands where none is expected. -/
def stray (s : Scope) (word : String) : Complaint :=
  match s with
  | .program => .unknownCommand word
  | _ => .unexpected s word

/-- The complaint about an argument behind two dashes. -/
def strayBehindDashes (s : Scope) (word : String) : Complaint :=
  if s = .program ∧ isCommand word then .shieldedCommand word else stray s word

/-- Reads the arguments of a scope.  The scope of the program ends with the name of a command, which
is given with the arguments behind it. -/
def readScope (s : Scope) :
    Given → List String → Except Halt (Given × Option (String × List String))
  | g, [] => .ok (g, none)
  | g, word :: rest =>
    if s = .program ∧ !g.awaitsValue ∧ isCommand word then .ok (g, some (word, rest))
    else
      match Word.ofText word with
      | .dashes =>
        match rest with
        | [] => .ok (g, none)
        | extra :: _ => .error (.refused (strayBehindDashes s extra))
      | .long name value =>
        match s.option? name with
        | none => .error (.refused (.unknownOption s name g.optionsWithPending rest))
        | some o =>
          match long s g o value with
          | .error halt => .error halt
          | .ok g => readScope s g rest
      | .short c =>
        match s.letter? c with
        | none => .error (.refused (.unexpected s ("-" ++ String.singleton c)))
        | some o =>
          match flag s g o with
          | .error halt => .error halt
          | .ok g => readScope s g rest
      | .plain text =>
        match g.pending with
        | some (o, none) => readScope s { g with pending := some (o, some text) } rest
        | _ => .error (.refused (stray s text))

/-! ### All arguments -/

/-- The topic of the help on a command. -/
def commandTopic? (word : String) : Option Topic :=
  if word = "init" then some .init
  else if word = "list" then some .list
  else if word = "help" then some .help
  else none

/-- What the command for help asks for. -/
def helpCommand : List String → Halt
  | [] => .help .program
  | word :: rest =>
    match commandTopic? word, rest with
    | none, _ => .refused (.unknownTopic .program word)
    | some topic, extra :: _ => .refused (.unknownTopic topic extra)
    | some topic, [] => .help topic

/-- Settles the options of a scope at its end.  Where the package root is not given the variable
counts, and it must not be empty. -/
def finish (s : Scope) (envRoot : Option String) (g : Given) : Except Halt Given :=
  match g.settle s with
  | .error halt => .error halt
  | .ok g =>
    if envRoot = some "" ∧ !g.has .packageRoot then
      .error (.refused (.missingValue .packageRoot))
    else .ok g

/-- The level that is asked for, the inner scope before the outer one. -/
def levelOf (inner outer : Given) : Level :=
  (((inner.value? .logLevel).orElse fun _ => outer.value? .logLevel).bind Level.ofWord?).getD .warn

/-- The package root that is asked for: the inner scope before the outer one, and the variable
last. -/
def rootOf (envRoot : Option String) (inner outer : Given) : Option String :=
  ((inner.value? .packageRoot).orElse fun _ => outer.value? .packageRoot).orElse fun _ => envRoot

/-- The command of a scope with the options given for it. -/
def actionOf (s : Scope) (g : Given) : Option Action :=
  match s with
  | .program => none
  | .init => some (.init ((g.value? .dir).getD "biome-plugins") (g.has .noUpdate))
  | .list => some .list

/-- Reads a command with the arguments behind it, after the options `outer` of the program. -/
def readCommand (envRoot : Option String) (outer : Given) (s : Scope) (words : List String) :
    Except Halt Invocation :=
  match readScope s .none words with
  | .error halt => .error halt
  | .ok (inner, _) =>
    match finish s envRoot inner with
    | .error halt => .error halt
    | .ok inner =>
      match finish .program envRoot outer with
      | .error halt => .error halt
      | .ok outer => .ok ⟨actionOf s inner, rootOf envRoot inner outer, levelOf inner outer⟩

/-- Reads the arguments of the program. -/
def parse (envRoot : Option String) (words : List String) : Except Halt Invocation :=
  match readScope .program .none words with
  | .error halt => .error halt
  | .ok (outer, none) =>
    match finish .program envRoot outer with
    | .error halt => .error halt
    | .ok outer => .ok ⟨none, rootOf envRoot .none outer, levelOf .none outer⟩
  | .ok (outer, some (word, rest)) =>
    match commandScope? word with
    | some s => readCommand envRoot outer s rest
    | none => .error (helpCommand rest)

end RulePack.Usage
