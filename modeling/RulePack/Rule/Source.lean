import RulePack.Rule

/-!
# The texts of the rules

Every rule of the catalog comes with the text of its file: a comment that says what the rule is
about, the language header, the pattern that it looks for and the message that it reports.

* `Rule.source`: the text of a rule's file.
-/

namespace RulePack.Rule

/-- The lines of a file as one text, each ended by a newline. -/
def page (lines : List String) : String := String.join (lines.map (· ++ "\n"))

/-- The text of a rule's file. -/
def source : Rule → String
  | .tryCatchInRender => page [
      "// Components should not wrap JSX in try/catch; errors thrown while rendering",
      "// children are not caught there. Use an Error Boundary instead.",
      "language js",
      "",
      "`try \x7b $... \x7d catch ($error) \x7b $... \x7d` as $try where \x7b",
      "    $try <: contains or \x7b",
      "        JsxElement(),",
      "        JsxSelfClosingElement(),",
      "        JsxFragment()",
      "    \x7d,",
      "    register_diagnostic(",
      "        span = $try,",
      "        message = \"Avoid try/catch around JSX in render. React Compiler cannot optimize it and render errors in children are not caught; use an Error Boundary instead.\"",
      "    )",
      "\x7d"]
  | .refAccessInRender => page [
      "// Reading or writing ref.current while rendering makes output depend on",
      "// mutable state React does not track. Access refs in effects or handlers.",
      "// Known limitation: reads inside useEffect callbacks are reported as well.",
      "language js",
      "",
      "`$ref.current` as $access where \x7b",
      "    $ref <: r\"^\\w+Ref$|^ref$\",",
      "    register_diagnostic(",
      "        span = $access,",
      "        message = \"Do not read or write ref.current during render. Access refs inside useEffect or event handlers.\"",
      "    )",
      "\x7d"]
  | .propMutation => page [
      "// Props are read-only. Assigning to a prop mutates the parent's data and",
      "// breaks React Compiler's memoization.",
      "language js",
      "",
      "`props.$field = $value` as $assignment where \x7b",
      "    register_diagnostic(",
      "        span = $assignment,",
      "        message = \"Do not mutate props directly. Props are immutable; derive a new value or use state instead.\"",
      "    )",
      "\x7d"]
  | .propsArrayPush => page [
      "// Array.prototype.push mutates the array in place. Called on a prop it",
      "// changes data owned by the parent component.",
      "language js",
      "",
      "`props.$field.push($...)` as $call where \x7b",
      "    register_diagnostic(",
      "        span = $call,",
      "        message = \"Do not call push() on props: it mutates the array in place. Use [...props.items, item] instead.\"",
      "    )",
      "\x7d"]
  | .propsArrayPop => page [
      "// Array.prototype.pop mutates the array in place. Called on a prop it",
      "// changes data owned by the parent component.",
      "language js",
      "",
      "`props.$field.pop($...)` as $call where \x7b",
      "    register_diagnostic(",
      "        span = $call,",
      "        message = \"Do not call pop() on props: it mutates the array in place. Use props.items.slice(0, -1) instead.\"",
      "    )",
      "\x7d"]
  | .propsArraySplice => page [
      "// Array.prototype.splice mutates the array in place. Called on a prop it",
      "// changes data owned by the parent component.",
      "language js",
      "",
      "`props.$field.splice($...)` as $call where \x7b",
      "    register_diagnostic(",
      "        span = $call,",
      "        message = \"Do not call splice() on props: it mutates the array in place. Use filter() or slice() to build a new array instead.\"",
      "    )",
      "\x7d"]
  | .propsArraySort => page [
      "// Array.prototype.sort mutates the array in place. Called on a prop it",
      "// changes data owned by the parent component.",
      "language js",
      "",
      "`props.$field.sort($...)` as $call where \x7b",
      "    register_diagnostic(",
      "        span = $call,",
      "        message = \"Do not call sort() on props: it mutates the array in place. Sort a copy instead: [...props.items].sort().\"",
      "    )",
      "\x7d"]
  | .propsArrayReverse => page [
      "// Array.prototype.reverse mutates the array in place. Called on a prop it",
      "// changes data owned by the parent component.",
      "language js",
      "",
      "`props.$field.reverse($...)` as $call where \x7b",
      "    register_diagnostic(",
      "        span = $call,",
      "        message = \"Do not call reverse() on props: it mutates the array in place. Reverse a copy instead: [...props.items].reverse().\"",
      "    )",
      "\x7d"]

end RulePack.Rule
