/-!
# Texts without control sequences

A terminal obeys control characters and control sequences.  Where there is no terminal they are left
out: of the control characters only the breaks stay, and a sequence starts with the escape character
and ends where its kind lets it end.

* `Terminal.Sequence`, `Terminal.Sequence.next`: how far a sequence has been read;
* `Terminal.Mode`: where in a text the reader stands;
* `Terminal.Grain`: whether a text is read byte by byte or as characters;
* `Terminal.visible`: a text without control characters and sequences.
-/

namespace RulePack.Text.Terminal

/-! ### Control sequences -/

/-- How far a control sequence has been read. -/
inductive Sequence where
  /-- The escape character alone. -/
  | escape
  /-- A blank or a punctuation mark behind the escape character. -/
  | designation
  /-- A control sequence with its parameters. -/
  | control
  /-- The opening of a device control string. -/
  | device
  /-- A device control string with parameters. -/
  | deviceParameters
  /-- A device control string with a blank or a punctuation mark. -/
  | deviceMarks
  /-- A string that goes on until the byte that ends it. -/
  | string
  /-- A string that goes on until the bell. -/
  | command
  deriving DecidableEq, Repr

/-- Is the character a break: a tab, a new line, a new page or a carriage return? -/
def isBreak (c : Char) : Bool := c = '\t' || c = '\n' || c = '\x0c' || c = '\r'

/-- Is the ASCII character a control, the one for deletion among them? -/
def isControl (c : Char) : Bool := c < ' ' || c = '\x7f'

namespace Sequence

/-- Do breaks inside the sequence keep their effect? -/
def letsBreaks : Sequence → Bool
  | escape | designation | control => true
  | device | deviceParameters | deviceMarks | string | command => false

/-- The sequence behind an escape character, by the character that follows. -/
def opened (c : Char) : Option Sequence :=
  if isControl c then some escape
  else if c ≤ '/' then some designation
  else if c = '[' then some control
  else if c = ']' then some command
  else if c = 'P' then some device
  else if c = 'X' ∨ c = '^' ∨ c = '_' then some string
  else none

/-- The sequence after one more ASCII character, or nothing where it ends.  An escape character
starts anew, and two other controls end every sequence. -/
def next (s : Sequence) (c : Char) : Option Sequence :=
  if c = '\x1b' then some escape
  else if c = '\x18' ∨ c = '\x1a' then none
  else
    match s with
    | escape => opened c
    | designation => if isControl c ∨ c ≤ '/' then some designation else none
    | control => if isControl c ∨ c ≤ '?' then some control else none
    | device =>
      if isControl c then some device
      else if c ≤ '/' then some deviceMarks
      else if c ≤ '?' then some deviceParameters
      else some string
    | deviceParameters =>
      if isControl c then some deviceParameters
      else if c ≤ '/' then some deviceMarks
      else if c ≤ ';' then some deviceParameters
      else some string
    | deviceMarks => if isControl c ∨ c ≤ '/' then some deviceMarks else some string
    | string => some string
    | command => if c = '\x07' then none else some command

/-- The byte that ends a string; it may be part of a character beyond ASCII. -/
def terminator : UInt8 := 0x9C

/-- The sequence after a character beyond ASCII, of which only the terminator counts. -/
def afterWide (s : Sequence) (c : Char) : Option Sequence :=
  if s = string ∧ terminator ∈ String.utf8EncodeChar c then none else some s

end Sequence

/-! ### Leaving sequences out -/

/-- Where in a text the reader stands. -/
inductive Mode where
  /-- Outside of sequences, or behind a break that has suspended one. -/
  | outside (suspended : Option Sequence)
  /-- In a sequence. -/
  | inside (s : Sequence)
  deriving DecidableEq, Repr

/-- The mode in a sequence, or outside where it has ended. -/
def Mode.of : Option Sequence → Mode
  | some s => .inside s
  | none => .outside none

/-- How a text is read. -/
inductive Grain where
  /-- Byte by byte: a break inside a sequence suspends it until the next control character, and
  characters beyond ASCII belong to the sequence. -/
  | bytes
  /-- As characters: a break ends a sequence, and so does a character beyond ASCII, of which the
  bytes behind the first one are left. -/
  | characters
  deriving DecidableEq, Repr

/-- The mode behind a break inside a sequence. -/
def Grain.behindBreak : Grain → Sequence → Mode
  | bytes, s => .outside (some s)
  | characters, _ => .outside none

/-- Does the character show where no sequence is open?  All beyond ASCII do. -/
def shows (c : Char) : Bool := isBreak c || !isControl c

/-- The characters of a text from a place on, without controls and sequences. -/
def visibleFrom (g : Grain) : Mode → List Char → List Char
  | _, [] => []
  | .outside suspended, c :: rest =>
    if 0x80 ≤ c.toNat then c :: visibleFrom g (.outside none) rest
    else if shows c then c :: visibleFrom g (.outside suspended) rest
    else if c = '\x1b' then visibleFrom g (.inside .escape) rest
    else visibleFrom g (.of (suspended.bind (·.next c))) rest
  | .inside s, c :: rest =>
    if 0x80 ≤ c.toNat then
      match g with
      | .bytes => visibleFrom g (.of (s.afterWide c)) rest
      | .characters =>
        List.replicate (c.utf8Size - 1) '\uFFFD' ++ visibleFrom g (.outside none) rest
    else if isBreak c ∧ s.letsBreaks then c :: visibleFrom g (g.behindBreak s) rest
    else visibleFrom g (.of (s.next c)) rest

/-- The text without controls and sequences.  A sequence that the text leaves open is left out to
the end of the text. -/
def visible (g : Grain) (text : String) : String :=
  String.ofList (visibleFrom g (.outside none) text.toList)

end RulePack.Text.Terminal
