/-!
# What is wrong with a JSON text

A text that is not read is refused for one problem, which has a place: a line and a column.  Columns
count bytes, from the newline before.

* `Json.Problem`, `Json.Problem.text`: the problems and their wording;
* `Json.Position`: lines and columns, and the one that a number of bytes leads to;
* `Json.Stop`: a problem and how many bytes of the text were still unread;
* `Json.Refusal`, `Json.Refusal.message`: a problem and its place, as they are reported.
-/

namespace RulePack.Json

/-- What is wrong with a text. -/
inductive Problem where
  | valueEnds
  | arrayEnds
  | objectEnds
  | stringEnds
  | noColon
  | noArrayEnd
  | noObjectEnd
  | noWord
  | noValue
  | badEscape
  | badNumber
  | numberTooLarge
  | loneSurrogate
  | brokenSurrogatePair
  | controlCharacter
  | keyNotString
  | trailingComma
  | trailingText
  | tooDeep
  /-- A value of one kind stands where another one is asked for. -/
  | mismatch (found expected : String)
  /-- An array that stands for a record is empty. -/
  | tooShort (expected : String)
  | missingField (key : String)
  | repeatedField (key : String)
  deriving DecidableEq, Repr

/-- The wording of a problem. -/
def Problem.text : Problem → String
  | valueEnds => "EOF while parsing a value"
  | arrayEnds => "EOF while parsing a list"
  | objectEnds => "EOF while parsing an object"
  | stringEnds => "EOF while parsing a string"
  | noColon => "expected `:`"
  | noArrayEnd => "expected `,` or `]`"
  | noObjectEnd => "expected `,` or `\x7d`"
  | noWord => "expected ident"
  | noValue => "expected value"
  | badEscape => "invalid escape"
  | badNumber => "invalid number"
  | numberTooLarge => "number out of range"
  | loneSurrogate => "lone leading surrogate in hex escape"
  | brokenSurrogatePair => "unexpected end of hex escape"
  | controlCharacter => "control character (\\u0000-\\u001F) found while parsing a string"
  | keyNotString => "key must be a string"
  | trailingComma => "trailing comma"
  | trailingText => "trailing characters"
  | tooDeep => "recursion limit exceeded"
  | mismatch found expected => "invalid type: " ++ found ++ ", expected " ++ expected
  | tooShort expected => "invalid length 0, expected " ++ expected
  | missingField key => "missing field `" ++ key ++ "`"
  | repeatedField key => "duplicate field `" ++ key ++ "`"

/-! ### Places in a text -/

/-- A place in a text. -/
structure Position where
  line : Nat
  column : Nat
  deriving DecidableEq, Repr

/-- The number of bytes of characters. -/
def byteCount : List Char → Nat
  | [] => 0
  | c :: rest => c.utf8Size + byteCount rest

/-- The place that lies a number of bytes behind a place. -/
def Position.advance (p : Position) (count : Nat) : List Char → Position
  | [] => p
  | c :: rest =>
    if count < c.utf8Size then ⟨p.line, p.column + count⟩
    else if c = '\n' then Position.advance ⟨p.line + 1, 0⟩ (count - 1) rest
    else Position.advance ⟨p.line, p.column + c.utf8Size⟩ (count - c.utf8Size) rest

/-- Why reading stopped, and how many bytes were left. -/
structure Stop where
  problem : Problem
  left : Nat
  deriving DecidableEq, Repr

/-- Stops with the next byte counted as read; at the end of the text there is none. -/
def stopAt (problem : Problem) (rest : List Char) : Stop := ⟨problem, byteCount rest - 1⟩

/-- Stops before the next byte. -/
def stopBefore (problem : Problem) (rest : List Char) : Stop := ⟨problem, byteCount rest⟩

/-- Why a text is refused, and where. -/
structure Refusal where
  problem : Problem
  position : Position
  deriving DecidableEq, Repr

/-- The refusal of a text in which reading stopped. -/
def Stop.inText (stop : Stop) (text : List Char) : Refusal :=
  ⟨stop.problem, Position.advance ⟨1, 0⟩ (byteCount text - stop.left) text⟩

/-- The report of a refusal. -/
def Refusal.message (r : Refusal) : String :=
  r.problem.text ++ " at line " ++ r.position.line.repr ++ " column " ++ r.position.column.repr

end RulePack.Json
