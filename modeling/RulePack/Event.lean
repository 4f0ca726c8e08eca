import RulePack.Disk.Basic
import RulePack.Failure
import RulePack.Rule

/-!
# Events

While it runs the program notes what happens; each event has a level, and the log shows those of the
levels that are asked for.

* `Level`: the levels, from the gravest on;
* `Event`, `Event.level`, `Event.message`: what happens, and how it is logged;
* `Event.line`: a line of the log;
* `Run`: what an operation leaves behind: a disk, events and a result.
-/

namespace RulePack

/-- How grave an event is. -/
inductive Level where
  | error
  | warn
  | info
  | debug
  | trace
  deriving DecidableEq, Repr

namespace Level

/-- All levels, the gravest first. -/
def all : List Level := [error, warn, info, debug, trace]

/-- The word for a level. -/
def word : Level → String
  | error => "error"
  | warn => "warn"
  | info => "info"
  | debug => "debug"
  | trace => "trace"

/-- The level that a word stands for. -/
def ofWord? (text : String) : Option Level := all.find? (fun l => l.word == text)

/-- How many levels are graver. -/
def rank : Level → Nat
  | error => 0
  | warn => 1
  | info => 2
  | debug => 3
  | trace => 4

/-- Does a log that goes down to the level `limit` show events of this level? -/
def shownBy (l limit : Level) : Bool := l.rank ≤ limit.rank

/-- The label of a level in the log, five columns wide, with its colour. -/
def label : Level → String
  | error => "\x1b[31mERROR\x1b[0m"
  | warn => "\x1b[33m WARN\x1b[0m"
  | info => "\x1b[32m INFO\x1b[0m"
  | debug => "\x1b[34mDEBUG\x1b[0m"
  | trace => "\x1b[35mTRACE\x1b[0m"

end Level

/-- What happens while the program runs. -/
inductive Event where
  /-- A command begins. -/
  | running (command : String)
  /-- The package root was given. -/
  | rootGiven (root : Path)
  /-- The package root was found above the program. -/
  | rootFound (root : Path)
  | directoryMade (path : Path)
  | ruleAbsent (rule : Rule)
  /-- The rule's file would be copied to itself. -/
  | ruleInPlace (target : Path)
  | ruleCopied (source target : Path)
  /-- The configuration is not to be touched. -/
  | configLeft
  /-- Plugins are merged into a configuration that lacks some of them. -/
  | merging (count : Nat) (path : Path) (added : Nat)
  | configMade (path : Path)
  | configUpdated (path : Path) (added : Nat)
  | configFailed (path : Path) (failure : Failure)
  | installed (count : Nat) (dir : Path)
  /-- A command could not do all, which is no reason to fail. -/
  | softened (command : String) (failure : Failure)
  /-- A command ends with a message. -/
  | concluded (command message : String)
  deriving DecidableEq, Repr

namespace Event

/-- The level of an event. -/
def level : Event → Level
  | ruleAbsent _ | configFailed _ _ | softened _ _ => .warn
  | directoryMade _ | configMade _ | configUpdated _ _ | installed _ _ => .info
  | _ => .debug

/-- The message of an event. -/
def message : Event → String
  | running command => "Running " ++ command ++ " command"
  | rootGiven root => "Using explicit package root " ++ root.shown
  | rootFound root => "Found bundled rules next to executable in " ++ root.shown
  | directoryMade path => "Created directory: " ++ path.shown
  | ruleAbsent rule => rule.fileName ++ " not found, skipping"
  | ruleInPlace target => target.shown ++ " is already in place, not copying"
  | ruleCopied source target => "Copied " ++ source.shown ++ " -> " ++ target.shown
  | configLeft => "Skipping Biome configuration update"
  | merging count path added =>
    "Merging " ++ count.repr ++ " plugin(s) into " ++ path.shown ++ ": " ++ added.repr ++ " new"
  | configMade path => "Created " ++ path.shown
  | configUpdated path added =>
    "Updated " ++ path.shown ++ " (" ++ added.repr ++ " new plugin(s))"
  | configFailed path failure => "Error updating " ++ path.shown ++ ": " ++ failure.message
  | installed count dir => "Installed " ++ count.repr ++ " rule(s) into " ++ dir.shown
  | softened command failure => command ++ ": " ++ failure.message
  | concluded command message => command ++ ": " ++ message

/-- A character of a message as the log writes it: what could steer a terminal is spelled out. -/
def guarded (c : Char) : List Char :=
  if c = '\x1b' then "\\x1b".toList
  else if c = '\x07' then "\\x07".toList
  else if c = '\x08' then "\\x08".toList
  else if c = '\x0c' then "\\x0c".toList
  else if c = '\x7f' then "\\x7f".toList
  else if 0x80 ≤ c.toNat ∧ c.toNat ≤ 0x9f then
    "\\u\x7b".toList ++ Nat.toDigits 16 c.toNat ++ ['\x7d']
  else [c]

/-- The line of the log for an event. -/
def line (e : Event) : String :=
  e.level.label ++ " " ++ String.ofList (e.message.toList.flatMap guarded)

end Event

/-- What an operation leaves behind: the disk, what happened, and its result.  After a failure the
disk is as far as the operation got. -/
structure Run (α : Type) where
  disk : Disk
  events : List Event
  result : Except Failure α

namespace Run

/-- The run with an event noted before its own. -/
def noting (e : Event) (r : Run α) : Run α := { r with events := e :: r.events }

/-- The run with its result changed. -/
def map (f : α → β) (r : Run α) : Run β := ⟨r.disk, r.events, r.result.map f⟩

/-- The run followed by another one that starts from its disk and result. -/
def andThen (r : Run α) (next : α → Disk → Run β) : Run β :=
  match r.result with
  | .error failure => ⟨r.disk, r.events, .error failure⟩
  | .ok a =>
    let after := next a r.disk
    { after with events := r.events ++ after.events }

/-- A run that does nothing but give a value. -/
def done (a : α) (d : Disk) : Run α := ⟨d, [], .ok a⟩

theorem andThen_of_ok {r : Run α} {a : α} (h : r.result = .ok a) (next : α → Disk → Run β) :
    r.andThen next
      = ⟨(next a r.disk).disk, r.events ++ (next a r.disk).events, (next a r.disk).result⟩ := by
  simp only [andThen, h]

theorem andThen_of_error {r : Run α} {failure : Failure} (h : r.result = .error failure)
    (next : α → Disk → Run β) : r.andThen next = ⟨r.disk, r.events, .error failure⟩ := by
  simp only [andThen, h]

theorem andThen_disk_of_still {r : Run α} {next : α → Disk → Run β}
    (h : ∀ a d, (next a d).disk = d) : (r.andThen next).disk = r.disk := by
  rw [andThen]
  split
  · rfl
  · exact h _ _

@[simp] theorem map_disk (f : α → β) (r : Run α) : (r.map f).disk = r.disk := rfl

@[simp] theorem map_result (f : α → β) (r : Run α) : (r.map f).result = r.result.map f := rfl

theorem map_result_eq_ok {f : α → β} {r : Run α} {b : β} :
    (r.map f).result = .ok b ↔ ∃ a, r.result = .ok a ∧ f a = b := by
  rw [map]
  cases r.result with
  | error failure => simp [Except.map]
  | ok a => simp [Except.map]

theorem andThen_result_eq_ok {r : Run α} {next : α → Disk → Run β} {b : β} :
    (r.andThen next).result = .ok b
      ↔ ∃ a, r.result = .ok a ∧ (next a r.disk).result = .ok b := by
  cases h : r.result with
  | error failure => simp [andThen_of_error h]
  | ok a => simp [andThen_of_ok h]

theorem map_result_eq_error {f : α → β} {r : Run α} {failure : Failure} :
    (r.map f).result = .error failure ↔ r.result = .error failure := by
  rw [map]
  cases r.result with
  | error failure => simp [Except.map]
  | ok a => simp [Except.map]

theorem andThen_result_eq_error {r : Run α} {next : α → Disk → Run β} {failure : Failure} :
    (r.andThen next).result = .error failure
      ↔ r.result = .error failure ∨ ∃ a, r.result = .ok a
        ∧ (next a r.disk).result = .error failure := by
  cases h : r.result with
  | error failure => simp [andThen_of_error h]
  | ok a => simp [andThen_of_ok h]

end Run

end RulePack
