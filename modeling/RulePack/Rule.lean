/-!
# The rules of the catalog

The catalog is a fixed list of eight rules.  A rule is known by its name, and its file carries that
name with one extension.

* `Rule`, `Rule.all`: the rules, and all of them in catalog order;
* `Rule.name`, `Rule.fileName`: how a rule and its file are called;
* `Rule.ofText?`: the rule that a text names, by name or by file name.
-/

namespace RulePack

/-- A rule of the catalog. -/
inductive Rule where
  | tryCatchInRender
  | refAccessInRender
  | propMutation
  | propsArrayPush
  | propsArrayPop
  | propsArraySplice
  | propsArraySort
  | propsArrayReverse
  deriving DecidableEq, Repr

namespace Rule

/-- Every rule, in catalog order. -/
def all : List Rule :=
  [tryCatchInRender, refAccessInRender, propMutation, propsArrayPush, propsArrayPop,
    propsArraySplice, propsArraySort, propsArrayReverse]

theorem mem_all (r : Rule) : r ∈ all := by
  cases r <;> decide

/-- The name of a rule. -/
def name : Rule → String
  | tryCatchInRender => "no-try-catch-in-render"
  | refAccessInRender => "no-ref-access-in-render"
  | propMutation => "no-prop-mutation"
  | propsArrayPush => "no-props-array-push"
  | propsArrayPop => "no-props-array-pop"
  | propsArraySplice => "no-props-array-splice"
  | propsArraySort => "no-props-array-sort"
  | propsArrayReverse => "no-props-array-reverse"

/-- The extension of a rule's file, with its dot. -/
def extension : String := ".grit"

/-- The name of a rule's file: the rule's name and the extension. -/
def fileName (r : Rule) : String := r.name ++ extension

/-! ### Finding a rule by a text -/

/-- The text without the extension, which is taken off at most once; a text that does not end in
it stays as it is. -/
def stem (text : String) : String :=
  let letters := text.toList
  let ending := extension.toList
  if ending.isSuffixOf letters then
    String.ofList (letters.take (letters.length - ending.length))
  else text

/-- The rule that a text names, either by the rule's name or by the name of its file. -/
def ofText? (text : String) : Option Rule :=
  all.find? (fun r => r.name == stem text)

theorem ofText?_name (r : Rule) : ofText? r.name = some r := by
  cases r <;> decide

theorem ofText?_fileName (r : Rule) : ofText? r.fileName = some r := by
  cases r <;> decide

end Rule

end RulePack
