import RulePack.Decimal.Shortest
import RulePack.Json.Value

/-!
# Printing JSON

Values are printed over several lines, indented by two spaces a level; empty arrays and objects take
two characters.

* `Json.quoted`: a string literal;
* `Json.Number.text`: a number, with the fewest digits that read back;
* `Json.render`: a value.
-/

namespace RulePack.Json

/-! ### String literals -/

/-- A digit of a number in base sixteen. -/
def hexDigit (n : Nat) : Char := if n < 10 then Char.ofNat (48 + n) else Char.ofNat (87 + n)

/-- A character as a string literal writes it: the quote, the backslash and the control characters
are escaped, and nothing else is. -/
def escaped (c : Char) : List Char :=
  if c = '"' then ['\\', '"']
  else if c = '\\' then ['\\', '\\']
  else if c = '\x08' then ['\\', 'b']
  else if c = '\t' then ['\\', 't']
  else if c = '\n' then ['\\', 'n']
  else if c = '\x0c' then ['\\', 'f']
  else if c = '\r' then ['\\', 'r']
  else if c.toNat < 32 then ['\\', 'u', '0', '0', hexDigit (c.toNat / 16), hexDigit (c.toNat % 16)]
  else [c]

/-- A text as a string literal. -/
def quoted (text : String) : List Char := '"' :: text.toList.flatMap escaped ++ ['"']

/-! ### Numbers -/

/-- A decimal: with a point and at least one digit after it while the first digit stands between
the fifth place after the point and the sixteenth before it, and with a signed power of ten
otherwise. -/
def decimalText (d : Decimal) : List Char :=
  let ds := d.digits
  let e := d.magnitude
  if 0 ≤ e ∧ e ≤ 15 then
    let wholes := e.toNat + 1
    let padded := ds ++ List.replicate (wholes - ds.length) '0'
    padded.take wholes ++ '.' :: (if ds.length ≤ wholes then ['0'] else ds.drop wholes)
  else if -5 ≤ e ∧ e < 0 then
    '0' :: '.' :: List.replicate ((-e).toNat - 1) '0' ++ ds
  else
    let front := match ds with
      | [] => []
      | [d] => [d]
      | d :: more => d :: '.' :: more
    front ++ 'e' :: (if e < 0 then '-' else '+') :: (Nat.repr e.natAbs).toList

/-- A number.  One that is not finite has no literal and is printed as nothing. -/
def Number.text : Number → List Char
  | .whole n => (if n < 0 then ['-'] else []) ++ (Nat.repr n.natAbs).toList
  | .real x =>
    if x.isFinite then
      (if x.toBits < 0x8000000000000000 then [] else ['-'])
        ++ decimalText (Binary.ofFloat x).shortest
    else "null".toList

/-! ### Values -/

/-- A new line at a level of nesting. -/
def newLine (level : Nat) : List Char := '\n' :: List.replicate (2 * level) ' '

mutual

/-- A value that stands at a level of nesting. -/
def print (level : Nat) : Json → List Char
  | .null => "null".toList
  | .bool true => "true".toList
  | .bool false => "false".toList
  | .number n => n.text
  | .string s => quoted s
  | .array [] => ['[', ']']
  | .array (v :: vs) =>
    '[' :: newLine (level + 1) ++ print (level + 1) v ++ printElements (level + 1) vs
      ++ newLine level ++ [']']
  | .object [] => ['\x7b', '\x7d']
  | .object ((k, v) :: ms) =>
    '\x7b' :: newLine (level + 1) ++ quoted k ++ ':' :: ' ' :: print (level + 1) v
      ++ printMembers (level + 1) ms ++ newLine level ++ ['\x7d']

/-- The elements after the first one. -/
def printElements (level : Nat) : List Json → List Char
  | [] => []
  | v :: vs => ',' :: newLine level ++ print level v ++ printElements level vs

/-- The members after the first one. -/
def printMembers (level : Nat) : List (String × Json) → List Char
  | [] => []
  | (k, v) :: ms =>
    ',' :: newLine level ++ quoted k ++ ':' :: ' ' :: print level v ++ printMembers level ms

end

/-- A value as a text. -/
def render (v : Json) : String := String.ofList (print 0 v)

end RulePack.Json
