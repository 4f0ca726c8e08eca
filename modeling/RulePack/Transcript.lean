import RulePack.Event

/-!
# Transcripts

A command speaks in lines: to the reader, about errors, and in the log.  The lines are kept in the
order in which they come, and only at the end divided between the two outputs.

* `Line`: a line of a transcript;
* `Transcript.out`: what stands on standard output;
* `Transcript.err`: what stands on standard error, with the log down to a level;
* `Transcript.errSilent`: the same without any log.
-/

namespace RulePack

/-- A line of a transcript. -/
inductive Line where
  | out (text : String)
  | err (text : String)
  | log (event : Event)
  deriving DecidableEq, Repr

/-- The lines of a command. -/
abbrev Transcript := List Line

namespace Transcript

/-- Each text with a newline behind it. -/
def unlines (texts : List String) : String := String.join (texts.map (· ++ "\n"))

/-- What stands on standard output. -/
def out (t : Transcript) : String :=
  unlines (t.filterMap fun
    | .out text => some text
    | _ => none)

/-- What stands on standard error when the log goes down to a level. -/
def err (limit : Level) (t : Transcript) : String :=
  unlines (t.filterMap fun
    | .err text => some text
    | .log e => if e.level.shownBy limit then some e.line else none
    | .out _ => none)

/-- What stands on standard error when there is no log. -/
def errSilent (t : Transcript) : String :=
  unlines (t.filterMap fun
    | .err text => some text
    | _ => none)

end Transcript

end RulePack
