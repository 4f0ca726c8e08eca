import RulePack.Json.Reader

/-!
# Skipping JSON values

A reader that is asked for some members of a record skips the others.  Skipping is more lenient than
reading: values may be of any depth, numbers of any size, and escapes of surrogates need not pair.

* `Json.skipString`, `Json.skipNumber`: over a string literal and a number;
* `Json.closeFrames`: over the ends of arrays and objects, to the next value in them;
* `Json.skipValue`: over a value.
-/

namespace RulePack.Json

/-! ### Tokens -/

/-- Skips a string literal from behind its opening quote. -/
def skipString : List Char → Reading Unit
  | [] => .error (stopAt .stringEnds [])
  | c :: rest =>
    if c = '"' then .ok ((), rest)
    else if c = '\\' then
      match rest with
      | [] => .error (stopAt .stringEnds [])
      | e :: rest =>
        if e = 'u' then
          match rest with
          | h₁ :: h₂ :: h₃ :: h₄ :: rest =>
            if (hexFour? h₁ h₂ h₃ h₄).isSome then skipString rest
            else .error (stopInHex (h₁ :: h₂ :: h₃ :: h₄ :: rest))
          | short => .error (stopInHex short)
        else if (plainEscape? e).isSome then skipString rest
        else .error (stopAt .badEscape (e :: rest))
    else if c.toNat < 32 then .error (stopBefore .controlCharacter (c :: rest))
    else skipString rest

/-- Skips digits, of which there must be one. -/
def skipDigits (cs : List Char) : Reading Unit :=
  let rest := cs.dropWhile Char.isDigit
  if (cs.takeWhile Char.isDigit).isEmpty then .error (stopAt .badNumber rest) else .ok ((), rest)

/-- Skips a written exponent from behind its letter. -/
def skipExponent (cs : List Char) : Reading Unit :=
  match cs with
  | c :: rest => skipDigits (if c = '+' ∨ c = '-' then rest else cs)
  | [] => skipDigits []

/-- Skips a number from behind its sign. -/
def skipNumber (cs : List Char) : Reading Unit :=
  match cs with
  | '0' :: d :: rest =>
    if d.isDigit then .error (stopAt .badNumber (d :: rest)) else fraction (d :: rest)
  | _ => (skipDigits cs).andThen fun _ rest => fraction rest
where
  /-- Skips what may follow the whole part. -/
  fraction (cs : List Char) : Reading Unit :=
    match cs with
    | c :: rest =>
      if c = '.' then (skipDigits rest).andThen fun _ rest => exponent rest
      else exponent (c :: rest)
    | [] => .ok ((), [])
  /-- Skips an exponent if there is one. -/
  exponent (cs : List Char) : Reading Unit :=
    match cs with
    | c :: rest => if c = 'e' ∨ c = 'E' then skipExponent rest else .ok ((), c :: rest)
    | [] => .ok ((), [])

/-! ### Values -/

/-- An array or object that is open. -/
inductive Frame where
  | array
  | object
  deriving DecidableEq, Repr

/-- The character that ends an array or object. -/
def Frame.closer : Frame → Char
  | array => ']'
  | object => '\x7d'

/-- The problem of a text that ends inside. -/
def Frame.ended : Frame → Problem
  | array => .arrayEnds
  | object => .objectEnds

/-- The problem of a text that goes on neither with a comma nor with the end. -/
def Frame.unended : Frame → Problem
  | array => .noArrayEnd
  | object => .noObjectEnd

/-- Goes over the ends of arrays and objects, innermost first, and gives those that are open when
the next value or member begins.  Where nothing has been read yet, no comma stands before it. -/
def closeFrames : List Frame → Bool → List Char → Reading (List Frame)
  | [], _, cs => .ok ([], cs)
  | f :: outer, begun, cs =>
    match skipBlanks cs with
    | [] => .error (stopAt f.ended [])
    | c :: rest =>
      if c = ',' ∧ begun then .ok (f :: outer, rest)
      else if c = f.closer then closeFrames outer true rest
      else if begun then .error (stopAt f.unended (c :: rest))
      else .ok (f :: outer, c :: rest)

/-- Goes over a key and its colon if the innermost open frame is an object. -/
def skipKey (frames : List Frame) (cs : List Char) : Reading Unit :=
  match frames with
  | .object :: _ =>
    match skipBlanks cs with
    | [] => .error (stopAt .objectEnds [])
    | c :: rest =>
      if c = '"' then (skipString rest).andThen fun _ rest => colon rest
      else .error (stopAt .keyNotString (c :: rest))
  | _ => .ok ((), cs)

/-- Skips a value that is neither array nor object, with no blanks before it. -/
def skipScalar (c : Char) (rest : List Char) : Reading Unit :=
  if c = '"' then skipString rest
  else if c = '-' then skipNumber rest
  else if c.isDigit then skipNumber (c :: rest)
  else if c = 't' then readWord ['r', 'u', 'e'] rest
  else if c = 'f' then readWord ['a', 'l', 's', 'e'] rest
  else if c = 'n' then readWord ['u', 'l', 'l'] rest
  else .error (stopAt .noValue (c :: rest))

/-- Skips a value and what encloses it up to the outermost of the open frames.  Every value takes a
character, so `fuel` need not exceed their number. -/
def skipFrames : Nat → List Frame → List Char → Reading Unit
  | 0, _, cs => .error (stopAt .valueEnds cs)
  | fuel + 1, frames, cs =>
    match skipBlanks cs with
    | [] => .error (stopAt .valueEnds [])
    | c :: rest =>
      let next : Reading (List Frame) :=
        if c = '[' then closeFrames (.array :: frames) false rest
        else if c = '\x7b' then closeFrames (.object :: frames) false rest
        else (skipScalar c rest).andThen fun _ rest => closeFrames frames true rest
      next.andThen fun frames rest =>
        if frames.isEmpty then .ok ((), rest)
        else (skipKey frames rest).andThen fun _ rest => skipFrames fuel frames rest

/-- Skips a value, with blanks before it. -/
def skipValue (cs : List Char) : Reading Unit := skipFrames (cs.length + 1) [] cs

end RulePack.Json
