import RulePack.Json.Problem
import RulePack.Json.Value

/-!
# The tokens of a JSON text

Words, string literals and numbers.  Each reader takes the characters that are left and gives what
it has read with the characters behind it.

* `Json.Reading`: what a reader gives;
* `Json.readWord`: the rest of one of the three words;
* `Json.readString`: a string literal after its opening quote;
* `Json.readNumber`: a number, after its sign if it has one.
-/

namespace RulePack.Json

/-- What has been read and what is left, or why reading stopped. -/
abbrev Reading (α : Type) := Except Stop (α × List Char)

/-- Goes on with what has been read and what is left. -/
def Reading.andThen (r : Reading α) (next : α → List Char → Reading β) : Reading β :=
  match r with
  | .ok (a, rest) => next a rest
  | .error stop => .error stop

/-- Changes what has been read. -/
def Reading.mapValue (f : α → β) (r : Reading α) : Reading β :=
  r.andThen (fun a rest => .ok (f a, rest))

@[simp] theorem Reading.andThen_ok (a : α) (rest : List Char)
    (next : α → List Char → Reading β) :
    Reading.andThen (.ok (a, rest)) next = next a rest := rfl

@[simp] theorem Reading.andThen_error (stop : Stop) (next : α → List Char → Reading β) :
    Reading.andThen (.error stop) next = .error stop := rfl

@[simp] theorem Reading.mapValue_ok (f : α → β) (a : α) (rest : List Char) :
    Reading.mapValue f (.ok (a, rest)) = .ok (f a, rest) := rfl

theorem Reading.andThen_eq_ok {r : Reading α} {next : α → List Char → Reading β} {b : β}
    {rest : List Char} :
    r.andThen next = .ok (b, rest) ↔ ∃ a left, r = .ok (a, left) ∧ next a left = .ok (b, rest) := by
  cases r with
  | error stop =>
    rw [Reading.andThen_error]
    simp
  | ok read => exact ⟨fun h => ⟨read.1, read.2, rfl, h⟩, fun ⟨_, _, hr, h⟩ => by cases hr; exact h⟩

theorem Reading.mapValue_eq_ok {r : Reading α} {f : α → β} {b : β} {rest : List Char} :
    r.mapValue f = .ok (b, rest) ↔ ∃ a, r = .ok (a, rest) ∧ f a = b := by
  rw [Reading.mapValue, Reading.andThen_eq_ok]
  constructor
  · rintro ⟨a, left, hr, hb⟩
    cases hb
    exact ⟨a, hr, rfl⟩
  · rintro ⟨a, hr, rfl⟩
    exact ⟨a, rest, hr, rfl⟩

/-- Characters that may stand between tokens. -/
def isBlank (c : Char) : Bool := c = ' ' || c = '\t' || c = '\n' || c = '\r'

/-- The characters from the next one on that is not blank. -/
def skipBlanks (cs : List Char) : List Char := cs.dropWhile isBlank

/-- Reads the given characters. -/
def readWord : List Char → List Char → Reading Unit
  | [], cs => .ok ((), cs)
  | _ :: _, [] => .error (stopAt .valueEnds [])
  | w :: ws, c :: cs => if c = w then readWord ws cs else .error (stopAt .noWord (c :: cs))

/-! ### String literals -/

/-- The value of a digit in base sixteen. -/
def hexValue? (c : Char) : Option Nat :=
  if '0' ≤ c ∧ c ≤ '9' then some (c.toNat - 48)
  else if 'a' ≤ c ∧ c ≤ 'f' then some (c.toNat - 87)
  else if 'A' ≤ c ∧ c ≤ 'F' then some (c.toNat - 55)
  else none

/-- The value of four digits in base sixteen. -/
def hexFour? (a b c d : Char) : Option Nat := do
  let a ← hexValue? a
  let b ← hexValue? b
  let c ← hexValue? c
  let d ← hexValue? d
  pure (((a * 16 + b) * 16 + c) * 16 + d)

/-- Stops at four bytes that are not four digits in base sixteen. -/
def stopInHex (cs : List Char) : Stop :=
  if byteCount cs < 4 then ⟨.stringEnds, 0⟩ else ⟨.badEscape, byteCount cs - 4⟩

/-- The character that a letter after a backslash stands for. -/
def plainEscape? (c : Char) : Option Char :=
  if c = '"' ∨ c = '\\' ∨ c = '/' then some c
  else if c = 'b' then some '\x08'
  else if c = 'f' then some '\x0c'
  else if c = 'n' then some '\n'
  else if c = 'r' then some '\r'
  else if c = 't' then some '\t'
  else none

def isHighSurrogate (n : Nat) : Bool := 0xD800 ≤ n && n ≤ 0xDBFF

def isLowSurrogate (n : Nat) : Bool := 0xDC00 ≤ n && n ≤ 0xDFFF

/-- The character that a pair of surrogates stands for. -/
def paired (high low : Nat) : Char :=
  Char.ofNat (0x10000 + (high - 0xD800) * 0x400 + (low - 0xDC00))

/-- Reads a string literal from behind its opening quote. -/
def readString : List Char → Reading (List Char)
  | [] => .error (stopAt .stringEnds [])
  | c :: rest =>
    if c = '"' then .ok ([], rest)
    else if c = '\\' then
      match rest with
      | [] => .error (stopAt .stringEnds [])
      | e :: rest =>
        if e = 'u' then
          match rest with
          | h₁ :: h₂ :: h₃ :: h₄ :: rest =>
            match hexFour? h₁ h₂ h₃ h₄ with
            | none => .error (stopInHex (h₁ :: h₂ :: h₃ :: h₄ :: rest))
            | some n =>
              if isLowSurrogate n then .error (stopBefore .loneSurrogate rest)
              else if isHighSurrogate n then
                match rest with
                | [] => .error (stopAt .stringEnds [])
                | b :: rest =>
                  if b = '\\' then
                    match rest with
                    | [] => .error (stopAt .stringEnds [])
                    | v :: rest =>
                      if v = 'u' then
                        match rest with
                        | l₁ :: l₂ :: l₃ :: l₄ :: rest =>
                          match hexFour? l₁ l₂ l₃ l₄ with
                          | none => .error (stopInHex (l₁ :: l₂ :: l₃ :: l₄ :: rest))
                          | some m =>
                            if isLowSurrogate m then (readString rest).mapValue (paired n m :: ·)
                            else .error (stopBefore .loneSurrogate rest)
                        | short => .error (stopInHex short)
                      else .error (stopAt .brokenSurrogatePair (v :: rest))
                  else .error (stopAt .brokenSurrogatePair (b :: rest))
              else (readString rest).mapValue (Char.ofNat n :: ·)
          | short => .error (stopInHex short)
        else
          match plainEscape? e with
          | some plain => (readString rest).mapValue (plain :: ·)
          | none => .error (stopAt .badEscape (e :: rest))
    else if c.toNat < 32 then .error (stopAt .controlCharacter (c :: rest))
    else (readString rest).mapValue (c :: ·)

theorem readString_quote (rest : List Char) : readString ('"' :: rest) = .ok ([], rest) := by
  rw [readString.eq_def]
  rfl

/-- A character that needs no escape is read as it stands. -/
theorem readString_plain {c : Char} (hquote : c ≠ '"') (hback : c ≠ '\\') (hplain : ¬c.toNat < 32)
    (rest : List Char) : readString (c :: rest) = (readString rest).mapValue (c :: ·) := by
  rw [readString.eq_def]
  simp only [hquote, hback, hplain, if_false]

theorem readString_escape {e plain : Char} (he : plainEscape? e = some plain) (rest : List Char) :
    readString ('\\' :: e :: rest) = (readString rest).mapValue (plain :: ·) := by
  have hu : e ≠ 'u' := by
    rintro rfl
    exact Option.some_ne_none plain he.symm
  rw [readString.eq_def]
  simp [hu, he]

/-- Four digits that are no surrogate stand for one character. -/
theorem readString_unit {h₁ h₂ h₃ h₄ : Char} {n : Nat} (hn : hexFour? h₁ h₂ h₃ h₄ = some n)
    (hlow : isLowSurrogate n = false) (hhigh : isHighSurrogate n = false) (rest : List Char) :
    readString ('\\' :: 'u' :: h₁ :: h₂ :: h₃ :: h₄ :: rest)
      = (readString rest).mapValue (Char.ofNat n :: ·) := by
  rw [readString.eq_def]
  simp [hn, hlow, hhigh]

/-! ### Numbers -/

/-- The value of a decimal digit. -/
def digitValue (c : Char) : Nat := c.toNat - 48

/-- The whole numbers of 64 bits lie below this. -/
def wordLimit : Nat := 0x10000000000000000

/-- The magnitudes of negative whole numbers of 64 bits go up to this. -/
def magnitudeLimit : Nat := 0x8000000000000000

/-- The written exponents of 31 bits lie below this. -/
def exponentLimit : Nat := 0x80000000

/-- Takes digits into a significand while it fits 64 bits; gives it with the number of digits
taken. -/
def gather (significand : Nat) : List Char → Nat × Nat
  | [] => (significand, 0)
  | d :: ds =>
    let next := significand * 10 + digitValue d
    if next < wordLimit then
      let (all, taken) := gather next ds
      (all, taken + 1)
    else (significand, 0)

/-- The value of the digits of a written exponent, or the digits behind the one with which it
exceeds 31 bits. -/
def exponentOf (value : Nat) : List Char → Except (List Char) Nat
  | [] => .ok value
  | d :: ds =>
    let next := value * 10 + digitValue d
    if next < exponentLimit then exponentOf next ds else .error ds

/-- A power of ten, correctly rounded. -/
def tenTo (k : Nat) : Float := Float.ofScientific 1 false k

/-- The number `f * 10 ^ e`, found by one multiplication or division with a power of ten that a
floating-point number can hold, after divisions by the greatest one; none if it is too large.  After
two such divisions nothing is left of a 64-bit significand, so `fuel` never runs out. -/
def scaled (fuel : Nat) (f : Float) (e : Int) : Option Float :=
  if e.natAbs ≤ 308 then
    if 0 ≤ e then
      let product := f * tenTo e.natAbs
      if product.isInf then none else some product
    else some (f / tenTo e.natAbs)
  else if f == 0 then some f
  else if 0 ≤ e then none
  else
    match fuel with
    | 0 => some 0
    | fuel + 1 => scaled fuel (f / tenTo 308) (e + 308)

/-- The number with a sign, a significand and a power of ten; `rest` stands behind it. -/
def realOf (negative : Bool) (significand : Nat) (e : Int) (rest : List Char) : Reading Number :=
  match scaled 3 significand.toUInt64.toFloat e with
  | some f => .ok (.real (if negative then -f else f), rest)
  | none => .error (stopBefore .numberTooLarge rest)

/-- Reads a written exponent from behind its letter. -/
def exponentPart (negative : Bool) (significand : Nat) (e : Int) (cs : List Char) :
    Reading Number :=
  let (downwards, cs) : Bool × List Char :=
    match cs with
    | '+' :: rest => (false, rest)
    | '-' :: rest => (true, rest)
    | _ => (false, cs)
  let digits := cs.takeWhile Char.isDigit
  let rest := cs.dropWhile Char.isDigit
  if digits.isEmpty then
    .error (stopAt (if rest.isEmpty then .valueEnds else .badNumber) rest)
  else
    match exponentOf 0 digits with
    | .ok written =>
      realOf negative significand
        (if downwards then e - (written : Int) else e + (written : Int)) rest
    | .error unread =>
      if significand ≠ 0 ∧ !downwards then .error (stopBefore .numberTooLarge (unread ++ rest))
      else .ok (.real (if negative then -0.0 else 0.0), rest)

/-- Reads a fraction from behind its point; `dropped` digits of the whole part did not fit. -/
def fractionPart (negative : Bool) (significand dropped : Nat) (cs : List Char) :
    Reading Number :=
  let digits := cs.takeWhile Char.isDigit
  let rest := cs.dropWhile Char.isDigit
  if digits.isEmpty then
    .error (stopAt (if rest.isEmpty then .valueEnds else .badNumber) rest)
  else
    let (all, taken) := gather significand digits
    let e : Int := (dropped : Int) - taken
    match rest with
    | c :: behind =>
      if c = 'e' ∨ c = 'E' then exponentPart negative all e behind
      else realOf negative all e rest
    | [] => realOf negative all e rest

/-- A whole number.  Outside of the 64-bit ranges, and for a negative zero, it is a floating-point
number. -/
def wholeOf (negative : Bool) (significand : Nat) : Number :=
  if negative then
    if significand = 0 ∨ magnitudeLimit < significand then .real (-significand.toUInt64.toFloat)
    else .whole (-(significand : Int))
  else .whole significand

/-- Reads a number from behind its sign. -/
def readNumber (negative : Bool) (cs : List Char) : Reading Number :=
  let digits := cs.takeWhile Char.isDigit
  let rest := cs.dropWhile Char.isDigit
  match digits with
  | [] => .error (stopAt (if rest.isEmpty then .valueEnds else .badNumber) rest)
  | '0' :: d :: more => .error (stopAt .badNumber (d :: more ++ rest))
  | digits =>
    let (significand, taken) := gather 0 digits
    let dropped := digits.length - taken
    match rest with
    | c :: behind =>
      if c = '.' then fractionPart negative significand dropped behind
      else if c = 'e' ∨ c = 'E' then exponentPart negative significand dropped behind
      else if dropped = 0 then .ok (wholeOf negative significand, rest)
      else realOf negative significand dropped rest
    | [] =>
      if dropped = 0 then .ok (wholeOf negative significand, rest)
      else realOf negative significand dropped rest

end RulePack.Json
