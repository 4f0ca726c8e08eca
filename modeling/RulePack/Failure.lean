import RulePack.Json.Problem
import RulePack.Path

/-!
# Failures

What can go wrong when rules are looked up, copied and registered, and how it is reported.

* `Fault`: why an operation on a disk failed;
* `Failure`, `Failure.message`, `Failure.report`: a failure, its message, and the message with its
  cause;
* `Failure.isFatal`: does the failure end the program?
-/

namespace RulePack

/-- Why an operation on a disk failed. -/
inductive Fault where
  | notFound
  | notADirectory
  | isADirectory
  | alreadyExists
  | nameTooLong
  | tooManyLinks
  /-- A path holds the byte zero. -/
  | zeroInPath
  | notText
  deriving DecidableEq, Repr

/-- The report of a fault. -/
def Fault.message : Fault → String
  | notFound => "No such file or directory (os error 2)"
  | notADirectory => "Not a directory (os error 20)"
  | isADirectory => "Is a directory (os error 21)"
  | alreadyExists => "File exists (os error 17)"
  | nameTooLong => "File name too long (os error 36)"
  | tooManyLinks => "Too many levels of symbolic links (os error 40)"
  | zeroInPath => "file name contained an unexpected NUL byte"
  | notText => "stream did not contain valid UTF-8"

/-- Why the program could not do what it was asked for. -/
inductive Failure where
  /-- There is no directory of rules in the package. -/
  | missingRules (rulesDir : Path)
  /-- The directory of rules holds none of the catalog's rules. -/
  | nothingCopied
  /-- No rule is called so, or its file is missing. -/
  | unknownRule (name : String)
  /-- The configuration is not one. -/
  | badConfig (path : Path) (problem : String)
  /-- An operation on the disk failed. -/
  | disk (path : Path) (fault : Fault)
  /-- A value has no JSON text. -/
  | badJson (refusal : Json.Refusal)
  deriving DecidableEq, Repr

namespace Failure

/-- The message of a failure. -/
def message : Failure → String
  | missingRules rulesDir => "Could not find bundled rules at " ++ rulesDir.shown
  | nothingCopied => "No rules were copied. Installation failed."
  | unknownRule name => "Rule not found: " ++ name
  | badConfig path problem => "Failed to parse " ++ path.shown ++ ": " ++ problem
  | disk path _ => "IO error at " ++ path.shown
  | badJson refusal => "JSON serialization error: " ++ refusal.message

/-- The message of a failure with its cause, if that is not part of the message. -/
def report : Failure → String
  | disk path fault => (disk path fault).message ++ ": " ++ fault.message
  | failure => failure.message

/-- Does the failure end the program?  A configuration that cannot be read does not. -/
def isFatal : Failure → Bool
  | badConfig _ _ => false
  | _ => true

end Failure

/-- What went wrong, if something did. -/
def error? : Except ε α → Option ε
  | .error e => some e
  | .ok _ => none

theorem error?_eq_some {r : Except ε α} {e : ε} : error? r = some e ↔ r = .error e := by
  cases r with
  | error _ => simp [error?]
  | ok _ => simp [error?]

theorem toOption_eq_some {e : Except ε α} {a : α} : e.toOption = some a ↔ e = .ok a := by
  cases e with
  | error _ => simp [Except.toOption]
  | ok _ => simp [Except.toOption]

end RulePack
