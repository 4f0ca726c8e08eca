import RulePack.Text.Bytes

/-!
# Paths

A path is a list of bytes, kept as it was written.  Read at its slashes it is a list of segments;
the segments that stand for nothing (empty ones and single dots) are silent, except at the front.

* `Path.ofText`, `Path.shown`: a path from a text, and a path as it is printed;
* `Path.join`: a path continued by another one;
* `Path.segments`, `Path.ofSegments`: the parts between the slashes;
* `Path.strictAncestors`: the paths above a path, nearest first, each a piece of its writing;
* `Path.absolute?`: a path made absolute without looking at any disk.
-/

namespace RulePack

/-- A path, as it was written. -/
structure Path where
  bytes : List UInt8
  deriving DecidableEq, Repr

/-- The part of a path between two slashes. -/
abbrev Segment := List UInt8

namespace Path

/-- The byte that separates segments. -/
def slash : UInt8 := 0x2F

/-- The byte of which the two silent names consist. -/
def dot : UInt8 := 0x2E

/-- The segment that stands for the directory itself. -/
def here : Segment := [dot]

/-- The segment that stands for the directory above. -/
def above : Segment := [dot, dot]

/-- The path that a text spells. -/
def ofText (text : String) : Path := ⟨Text.bytes text⟩

/-- The path as it is printed. -/
def shown (p : Path) : String := Text.shown p.bytes

theorem shown_ofText (text : String) : (ofText text).shown = text := Text.shown_bytes text

def isEmpty (p : Path) : Bool := p.bytes.isEmpty

/-- Does the path start at the root? -/
def isAbsolute (p : Path) : Bool := p.bytes.head? == some slash

/-- Does the path end in a slash? -/
def endsInSlash (p : Path) : Bool := p.bytes.getLast? == some slash

/-- The path continued by another one.  An absolute continuation stands alone; otherwise one slash
is written between them, unless the first is empty or brings its own. -/
def join (p next : Path) : Path :=
  if next.isAbsolute then next
  else if p.isEmpty || p.endsInSlash then ⟨p.bytes ++ next.bytes⟩
  else ⟨p.bytes ++ slash :: next.bytes⟩

/-- The path continued by a name. -/
def child (p : Path) (name : String) : Path := p.join (ofText name)

/-! ### Segments -/

/-- The pieces of a list of bytes between slashes; there is always at least one. -/
def splitSlashes : List UInt8 → List Segment
  | [] => [[]]
  | b :: rest =>
    if b = slash then [] :: splitSlashes rest
    else
      match splitSlashes rest with
      | [] => [[b]]
      | s :: more => (b :: s) :: more

/-- The segments of a path; an absolute path has an empty one in front. -/
def segments (p : Path) : List Segment := splitSlashes p.bytes

/-- The path whose segments are given.  The lone empty segment in front of an absolute path is its
root. -/
def ofSegments : List Segment → Path
  | [[]] => ⟨[slash]⟩
  | ss => ⟨List.intercalate [slash] ss⟩

/-- Does the segment stand for nothing when it is not in front? -/
def isSilent (s : Segment) : Bool := s == [] || s == here

/-! ### The paths above a path -/

/-- Segments in reverse, without the silent ones that come last in the path. -/
def dropSilent : List Segment → List Segment
  | [] => []
  | [first] => [first]
  | s :: before => if isSilent s then dropSilent before else s :: before

/-- The paths above the one with these segments, which are given in reverse.  A relative path ends
with the empty path, an absolute one with the root, which has nothing above it. -/
def ancestorsOfReversed : List Segment → List Path
  | [] => []
  | [first] => if first = [] then [] else [⟨[]⟩]
  | s :: before =>
    if isSilent s then ancestorsOfReversed before
    else ofSegments (dropSilent before).reverse :: ancestorsOfReversed before

/-- The paths above a path, nearest first. -/
def strictAncestors (p : Path) : List Path := ancestorsOfReversed p.segments.reverse

/-! ### Making a path absolute -/

/-- The segments that name something or lead upwards. -/
def spokenSegments (p : Path) : List Segment := p.segments.filter (fun s => !isSilent s)

/-- The root as an absolute path writes it: exactly two slashes at the front are kept, any other
number is one. -/
def rootOf (p : Path) : Path :=
  if (p.bytes.takeWhile (· == slash)).length = 2 then ⟨[slash, slash]⟩ else ⟨[slash]⟩

/-- The path made absolute against the directory `base`: without silent segments and repeated
slashes, but with its upward steps and a slash at its end kept.  The empty path cannot be made
absolute. -/
def absolute? (base p : Path) : Option Path :=
  if p.isEmpty then none
  else
    let start := if p.isAbsolute then p.rootOf else base
    let body := p.spokenSegments.foldl (fun q s => q.join ⟨s⟩) start
    some (if p.endsInSlash then body.join ⟨[]⟩ else body)

end Path

end RulePack
