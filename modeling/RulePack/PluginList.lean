import RulePack.Json.Printer
import RulePack.Json.Skip
import RulePack.Text.Quoted

/-!
# Lists of plugin paths

The plugins of a configuration are a list of paths in which the order counts and no path should
stand twice.  On its own the list is written as a record with one field.

* `PluginList.merge`: two lists as one, without repetitions;
* `PluginList.missing`: what a list lacks of another one;
* `PluginList.block`: the record that holds a list, to be pasted into a configuration;
* `PluginList.read`: the list that a record holds.
-/

namespace RulePack.PluginList

/-! ### Merging -/

/-- The paths that are not among those seen before, each once. -/
def fresh (seen : List String) : List String → List String
  | [] => []
  | p :: rest => if p ∈ seen then fresh seen rest else p :: fresh (p :: seen) rest

/-- The first list followed by the second one, each path at its first place only. -/
def merge (existing incoming : List String) : List String := fresh [] (existing ++ incoming)

theorem mem_fresh {p : String} {seen paths : List String} :
    p ∈ fresh seen paths ↔ p ∈ paths ∧ p ∉ seen := by
  induction paths generalizing seen with
  | nil => simp [fresh]
  | cons q rest ih =>
    by_cases hq : q ∈ seen
    · rw [fresh, if_pos hq, ih, List.mem_cons]
      refine ⟨fun h => ⟨Or.inr h.1, h.2⟩, fun h => ⟨h.1.resolve_left ?_, h.2⟩⟩
      intro he
      exact h.2 (he ▸ hq)
    · rw [fresh, if_neg hq, List.mem_cons, ih, List.mem_cons, List.mem_cons, not_or]
      by_cases he : p = q
      · simp [he, hq]
      · simp [he]

theorem nodup_fresh (seen paths : List String) : (fresh seen paths).Nodup := by
  induction paths generalizing seen with
  | nil => simp [fresh]
  | cons q rest ih =>
    by_cases hq : q ∈ seen
    · rw [fresh, if_pos hq]
      exact ih seen
    · rw [fresh, if_neg hq, List.nodup_cons]
      exact ⟨fun h => (mem_fresh.mp h).2 (List.mem_cons_self), ih (q :: seen)⟩

/-- Merging loses no path and invents none. -/
theorem mem_merge {p : String} {existing incoming : List String} :
    p ∈ merge existing incoming ↔ p ∈ existing ∨ p ∈ incoming := by
  simp [merge, mem_fresh]

theorem nodup_merge (existing incoming : List String) : (merge existing incoming).Nodup :=
  nodup_fresh [] (existing ++ incoming)

/-- The paths of a merged list that were not in the list before. -/
def missing (existing merged : List String) : List String := merged.filter (fun p => p ∉ existing)

/-! ### The record of a list -/

/-- The name of the field that holds the list. -/
def field : String := "plugins"

/-- The record that holds a list. -/
def record (plugins : List String) : Json := .object [(field, Json.strings plugins)]

/-- The record that holds a list, as a text. -/
def block (plugins : List String) : String := (record plugins).render

/-! ### Reading a record -/

open Json

/-- What a message calls the record. -/
def recordName : String := "struct PluginConfig"

/-- What a message calls a number. -/
def numberName : Number → String
  | .whole n => "integer `" ++ String.ofList (Number.whole n).text ++ "`"
  | .real x => "floating point `" ++ String.ofList (Number.real x).text ++ "`"

/-- Stops at a value of the wrong kind: behind it, but before the bracket of an array or object. -/
def mismatchAt (expected : String) (c : Char) (rest : List Char) : Reading α :=
  let behind (found : String) (rest : List Char) : Reading α :=
    .error (stopBefore (.mismatch found expected) rest)
  if c = 'n' then (readWord ['u', 'l', 'l'] rest).andThen fun _ => behind "null"
  else if c = 't' then (readWord ['r', 'u', 'e'] rest).andThen fun _ => behind "boolean `true`"
  else if c = 'f' then
    (readWord ['a', 'l', 's', 'e'] rest).andThen fun _ => behind "boolean `false`"
  else if c = '-' then (readNumber true rest).andThen fun n => behind (numberName n)
  else if c.isDigit then (readNumber false (c :: rest)).andThen fun n => behind (numberName n)
  else if c = '"' then
    (readString rest).andThen fun s => behind ("string " ++ Text.quoted (String.ofList s))
  else if c = '[' then behind "sequence" (c :: rest)
  else if c = '\x7b' then behind "map" (c :: rest)
  else .error (stopAt .noValue (c :: rest))

/-- Reads a string, with blanks before it. -/
def readText (cs : List Char) : Reading String :=
  match skipBlanks cs with
  | [] => .error (stopAt .valueEnds [])
  | c :: rest =>
    if c = '"' then (readString rest).mapValue String.ofList else mismatchAt "a string" c rest

/-- Reads an array of strings, with blanks before it. -/
def readTexts (cs : List Char) : Reading (List String) :=
  match skipBlanks cs with
  | [] => .error (stopAt .valueEnds [])
  | c :: rest => if c = '[' then elements readText rest else mismatchAt "a sequence" c rest

/-- Stops behind a key that stands twice, or behind the end of the object if that follows it. -/
def stopRepeated (cs : List Char) : Stop :=
  match skipBlanks cs with
  | c :: rest => stopBefore (.repeatedField field) (if c = '\x7d' then rest else c :: rest)
  | [] => stopBefore (.repeatedField field) []

/-- The list that the members read so far hold, at the end of the object. -/
def closeRecord (found : Option (List String)) (rest : List Char) : Reading (List String) :=
  match found with
  | some plugins => .ok (plugins, rest)
  | none => .error (stopBefore (.missingField field) rest)

/-- Reads a member from behind the opening quote of its key: the list, or a member to be skipped. -/
def readMember (found : Option (List String)) (cs : List Char) : Reading (Option (List String)) :=
  (readString cs).andThen fun key rest =>
    if String.ofList key = field then
      if found.isSome then .error (stopRepeated rest)
      else (colon rest).andThen fun _ rest => (readTexts rest).mapValue some
    else (colon rest).andThen fun _ rest => (skipValue rest).mapValue (fun _ => found)

/-- Reads the members behind the first one, up to the closing brace.  Every one of them starts with
a comma, so `fuel` need not exceed the number of characters. -/
def readMembers : Nat → Option (List String) → List Char → Reading (List String)
  | 0, _, cs => .error (stopAt .objectEnds cs)
  | fuel + 1, found, cs =>
    match skipBlanks cs with
    | [] => .error (stopAt .objectEnds [])
    | c :: rest =>
      if c = '\x7d' then closeRecord found rest
      else if c = ',' then
        match skipBlanks rest with
        | [] => .error (stopAt .valueEnds [])
        | d :: more =>
          if d = '"' then (readMember found more).andThen (readMembers fuel)
          else if d = '\x7d' then .error (stopAt .trailingComma (d :: more))
          else .error (stopAt .keyNotString (d :: more))
      else .error (stopAt .noObjectEnd (c :: rest))

/-- Reads an object that holds the list from behind its opening brace. -/
def readObject (cs : List Char) : Reading (List String) :=
  match skipBlanks cs with
  | [] => .error (stopAt .objectEnds [])
  | c :: rest =>
    if c = '\x7d' then closeRecord none rest
    else if c = '"' then
      (readMember none rest).andThen fun found rest => readMembers (rest.length + 1) found rest
    else .error (stopAt .keyNotString (c :: rest))

/-- Reads the end of an array that stands for the record: there is no second element. -/
def endTuple (plugins : List String) (cs : List Char) : Reading (List String) :=
  match skipBlanks cs with
  | [] => .error (stopAt .arrayEnds [])
  | c :: rest =>
    if c = ']' then .ok (plugins, rest)
    else if c = ',' then
      match skipBlanks rest with
      | ']' :: more => .error (stopAt .trailingComma (']' :: more))
      | more => .error (stopAt .trailingText more)
    else .error (stopAt .trailingText (c :: rest))

/-- Reads an array that stands for the record, its one element being the list, from behind its
opening bracket. -/
def readTuple (cs : List Char) : Reading (List String) :=
  match skipBlanks cs with
  | [] => .error (stopAt .arrayEnds [])
  | c :: rest =>
    if c = ']' then .error (stopBefore (.tooShort (recordName ++ " with 1 element")) rest)
    else (readTexts (c :: rest)).andThen endTuple

/-- Reads a record, with blanks before it. -/
def readRecord (cs : List Char) : Reading (List String) :=
  match skipBlanks cs with
  | [] => .error (stopAt .valueEnds [])
  | c :: rest =>
    if c = '[' then readTuple rest
    else if c = '\x7b' then readObject rest
    else mismatchAt recordName c rest

/-- The list that a record holds.  Members of other names are skipped, and an array of one element
may stand for the record. -/
def read (text : String) : Except Refusal (List String) := readAll readRecord text.toList

end RulePack.PluginList
