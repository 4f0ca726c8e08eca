import RulePack.Json.Token

/-!
# Reading JSON

A text is one value with blanks around its tokens.  At most 127 arrays and objects may be open at a
time; of a key that stands twice in an object the last value counts, at the first place.

* `Json.elements`, `Json.members`: arrays and objects whose values are read by a given reader;
* `Json.valueWith`: a value whose parts are read by a given reader;
* `Json.value`: a value of bounded depth;
* `Json.read`: the value of a whole text.
-/

namespace RulePack.Json

/-! ### Arrays and objects -/

/-- Reads the elements behind the first one, each by `inner`, up to the closing bracket.  Every one
of them starts with a comma, so `fuel` need not exceed the number of characters. -/
def elementsRest (inner : List Char → Reading α) : Nat → List Char → Reading (List α)
  | 0, cs => .error (stopAt .arrayEnds cs)
  | fuel + 1, cs =>
    match skipBlanks cs with
    | [] => .error (stopAt .arrayEnds [])
    | c :: rest =>
      if c = ']' then .ok ([], rest)
      else if c = ',' then
        match skipBlanks rest with
        | [] => .error (stopAt .valueEnds [])
        | d :: more =>
          if d = ']' then .error (stopAt .trailingComma (d :: more))
          else
            (inner (d :: more)).andThen fun v rest =>
              (elementsRest inner fuel rest).mapValue (v :: ·)
      else .error (stopAt .noArrayEnd (c :: rest))

/-- Reads an array from behind its opening bracket. -/
def elements (inner : List Char → Reading α) (cs : List Char) : Reading (List α) :=
  match skipBlanks cs with
  | [] => .error (stopAt .arrayEnds [])
  | c :: rest =>
    if c = ']' then .ok ([], rest)
    else
      (inner (c :: rest)).andThen fun v rest =>
        (elementsRest inner (rest.length + 1) rest).mapValue (v :: ·)

/-- Reads a colon, with blanks before it. -/
def colon (cs : List Char) : Reading Unit :=
  match skipBlanks cs with
  | [] => .error (stopAt .objectEnds [])
  | c :: rest => if c = ':' then .ok ((), rest) else .error (stopAt .noColon (c :: rest))

/-- Reads a member of an object from behind the opening quote of its key. -/
def member (inner : List Char → Reading α) (cs : List Char) : Reading (String × α) :=
  (readString cs).andThen fun key rest =>
    (colon rest).andThen fun _ rest =>
      (inner rest).mapValue (String.ofList key, ·)

/-- Reads the members behind the first one, up to the closing brace; `fuel` as for elements. -/
def membersRest (inner : List Char → Reading α) :
    Nat → List Char → Reading (List (String × α))
  | 0, cs => .error (stopAt .objectEnds cs)
  | fuel + 1, cs =>
    match skipBlanks cs with
    | [] => .error (stopAt .objectEnds [])
    | c :: rest =>
      if c = '\x7d' then .ok ([], rest)
      else if c = ',' then
        match skipBlanks rest with
        | [] => .error (stopAt .valueEnds [])
        | d :: more =>
          if d = '"' then
            (member inner more).andThen fun m rest =>
              (membersRest inner fuel rest).mapValue (m :: ·)
          else if d = '\x7d' then .error (stopAt .trailingComma (d :: more))
          else .error (stopAt .keyNotString (d :: more))
      else .error (stopAt .noObjectEnd (c :: rest))

/-- Reads an object from behind its opening brace. -/
def members (inner : List Char → Reading α) (cs : List Char) : Reading (List (String × α)) :=
  match skipBlanks cs with
  | [] => .error (stopAt .objectEnds [])
  | c :: rest =>
    if c = '\x7d' then .ok ([], rest)
    else if c = '"' then
      (member inner rest).andThen fun m rest =>
        (membersRest inner (rest.length + 1) rest).mapValue (m :: ·)
    else .error (stopAt .keyNotString (c :: rest))

/-- The object that results from setting the members one after the other. -/
def Members.ofList (pairs : List (String × Json)) : Members :=
  pairs.foldl (fun ms (key, value) => ms.insert key value) []

/-! ### Values -/

/-- Reads a value with blanks before it.  The parts of an array or object are read by `inner`; where
there is no such reader the text is too deep. -/
def valueWith (inner : Option (List Char → Reading Json)) (cs : List Char) : Reading Json :=
  match skipBlanks cs with
  | [] => .error (stopAt .valueEnds [])
  | c :: rest =>
    if c = '"' then (readString rest).mapValue (fun s => string (String.ofList s))
    else if c = '[' then
      match inner with
      | none => .error (stopAt .tooDeep (c :: rest))
      | some inner => (elements inner rest).mapValue array
    else if c = '\x7b' then
      match inner with
      | none => .error (stopAt .tooDeep (c :: rest))
      | some inner => (members inner rest).mapValue (fun ms => object (Members.ofList ms))
    else if c = '-' then (readNumber true rest).mapValue number
    else if c.isDigit then (readNumber false (c :: rest)).mapValue number
    else if c = 't' then (readWord ['r', 'u', 'e'] rest).mapValue (fun _ => bool true)
    else if c = 'f' then (readWord ['a', 'l', 's', 'e'] rest).mapValue (fun _ => bool false)
    else if c = 'n' then (readWord ['u', 'l', 'l'] rest).mapValue (fun _ => null)
    else .error (stopAt .noValue (c :: rest))

/-- Reads a value in which at most `depth` arrays and objects are open at a time. -/
def value : Nat → List Char → Reading Json
  | 0 => valueWith none
  | depth + 1 => valueWith (some (value depth))

/-- The greatest number of arrays and objects that may be open at a time. -/
def depthLimit : Nat := 127

/-- Reads a whole text by `reader`: nothing but blanks may follow. -/
def readAll (reader : List Char → Reading α) (text : List Char) : Except Refusal α :=
  match reader text with
  | .error stop => .error (stop.inText text)
  | .ok (v, rest) =>
    match skipBlanks rest with
    | [] => .ok v
    | c :: more => .error ((stopAt .trailingText (c :: more)).inText text)

/-- The value of a text. -/
def read (text : String) : Except Refusal Json := readAll (value depthLimit) text.toList

end RulePack.Json
