import RulePack.Disk.Basic
import RulePack.Failure

/-!
# Walking a disk along a path

A path is walked step by step from the root or the working directory.  Every step starts from a
directory; a symbolic link on the way is replaced by its target, at most forty times in a walk.

* `Step`, `Path.steps`: the steps that a path asks for;
* `Path.refusal?`: why a path is not walked at all;
* `Purpose`, `Disk.advance`: what a walk is for, and the walk up to the first link;
* `Spot`, `Disk.follow`, `Disk.walk`: the whole walk, to something that is there or to a vacant name
  in a directory that is there;
* `Disk.find`, `Disk.locate?`: the location that a path leads to, within the limit on the length of
  paths, and name by name;
* `Disk.isFile`, `Disk.isDirectory`, `Disk.holds`, `Disk.readText`: what lies there;
* `Disk.canonical?`, `Disk.sameFile`: the location that a path resolves to, and whether two paths
  resolve to the same one;
* `Disk.currentPath`: the path of the working directory, if that is there.
-/

namespace RulePack

/-- A step of a walk. -/
inductive Step where
  /-- Stay in the directory. -/
  | stay
  /-- Go to the directory around. -/
  | up
  /-- Go to the entry of that name. -/
  | down (name : Segment)
  /-- The slash at the end of a path, which asks for a directory. -/
  | slash
  deriving DecidableEq, Repr

/-- The step that a segment asks for. -/
def Step.ofSegment (s : Segment) : Step :=
  if s = Path.here then .stay else if s = Path.above then .up else .down s

namespace Path

/-- The steps that segments ask for. -/
def stepsOf (ss : List Segment) : List Step := (ss.filter (· ≠ [])).map Step.ofSegment

/-- The steps that a path asks for. -/
def steps (p : Path) : List Step :=
  stepsOf p.segments ++ if p.endsInSlash then [.slash] else []

/-- Where a walk along a path starts when relative paths start from `base`. -/
def start (p : Path) (base : Location) : Location := if p.isAbsolute then [] else base

/-- The greatest length of a path, in bytes. -/
def lengthLimit : Nat := 4095

/-- Why a path is not walked at all, whatever is on the disk. -/
def refusal? (p : Path) : Option Fault :=
  if 0 ∈ p.bytes then some .zeroInPath
  else if p.isEmpty then some .notFound
  else if lengthLimit < p.bytes.length then some .nameTooLong
  else none

theorem refusal?_eq_none {p : Path} : p.refusal? = none
    ↔ (p.isEmpty = false ∧ 0 ∉ p.bytes) ∧ p.bytes.length ≤ lengthLimit := by
  rw [refusal?]
  by_cases hzero : 0 ∈ p.bytes
  · simp [hzero]
  · cases hempty : p.isEmpty with
    | true => simp [hzero]
    | false =>
      simp only [hzero, if_false, Bool.false_eq_true, not_false_eq_true, and_self, true_and,
        ite_eq_right_iff, reduceCtorEq, imp_false, Nat.not_lt]

theorem not_mem_of_refusal? {p : Path} (h : p.refusal? = none) : 0 ∉ p.bytes :=
  (refusal?_eq_none.mp h).1.2

end Path

/-- How far a walk gets without replacing a link.  `slash` tells whether the path ended in one. -/
inductive Progress where
  /-- To something that is there. -/
  | arrived (l : Location) (slash : Bool)
  /-- To a name that is vacant, in a directory. -/
  | vacant (dir : Location) (name : Segment) (slash : Bool)
  /-- To a link in a directory, with steps left behind it. -/
  | atLink (dir : Location) (target : Path) (rest : List Step)
  | stuck (fault : Fault)
  deriving DecidableEq, Repr

/-- Where a walk ends. -/
inductive Spot where
  | occupied (l : Location) (slash : Bool)
  | vacant (dir : Location) (name : Segment) (slash : Bool)
  deriving DecidableEq, Repr

/-- What a walk is for. -/
inductive Purpose where
  | looking
  /-- A name at the end of the path is going to be a file, so that no slash may follow it. -/
  | writing
  deriving DecidableEq, Repr

namespace Disk

/-- Is there a directory at a location? -/
def isDirectoryAt (d : Disk) (l : Location) : Bool := d.entryAt l == some .directory

/-- The greatest length of a name, in bytes. -/
def nameLimit : Nat := 255

/-- The greatest number of links that a walk replaces. -/
def linkLimit : Nat := 40

/-- Walks up to the first link. -/
def advance (d : Disk) (purpose : Purpose) (l : Location) : List Step → Progress
  | [] => .arrived l false
  | [.slash] => .arrived l true
  | step :: rest =>
    if d.isDirectoryAt l then
      match step with
      | .stay | .slash => advance d purpose l rest
      | .up => advance d purpose l.tail rest
      | .down name =>
        if purpose = .writing ∧ rest = [.slash] then .stuck .isADirectory
        else if nameLimit < name.length then .stuck .nameTooLong
        else
          match d.entryAt (name :: l) with
          | some (.link target) => .atLink l target rest
          | some _ => advance d purpose (name :: l) rest
          | none =>
            match rest with
            | [] => .vacant l name false
            | [.slash] => .vacant l name true
            | _ => .stuck .notFound
    else .stuck .notADirectory

section
variable {d : Disk} {purpose : Purpose} {l : Location} {name : Segment} {rest : List Step}

theorem advance_slash (hdir : d.isDirectoryAt l = true) (hrest : rest ≠ []) :
    d.advance purpose l (.slash :: rest) = d.advance purpose l rest := by
  rw [advance.eq_def]
  simp [hdir, hrest]

theorem advance_outside (hdir : d.isDirectoryAt l = false) {step : Step}
    (h : step :: rest ≠ [.slash]) :
    d.advance purpose l (step :: rest) = .stuck .notADirectory := by
  rw [advance.eq_def]
  cases step <;> simp_all

variable (hdir : d.isDirectoryAt l = true) (hname : ¬nameLimit < name.length)
include hdir hname

theorem advance_down_link (hw : ¬(purpose = .writing ∧ rest = [.slash])) {target : Path}
    (he : d.entryAt (name :: l) = some (.link target)) :
    d.advance purpose l (.down name :: rest) = .atLink l target rest := by
  rw [advance.eq_def]
  simp [hdir, hw, hname, he]

theorem advance_down_held (hw : ¬(purpose = .writing ∧ rest = [.slash])) {e : Entry}
    (he : d.entryAt (name :: l) = some e) (hlink : ∀ target, e ≠ .link target) :
    d.advance purpose l (.down name :: rest) = d.advance purpose (name :: l) rest := by
  rw [advance.eq_def]
  cases e with
  | link target => exact absurd rfl (hlink target)
  | file bytes => simp [hdir, hw, hname, he]
  | directory => simp [hdir, hw, hname, he]

theorem advance_down_vacant (he : d.entryAt (name :: l) = none) :
    d.advance purpose l [.down name] = .vacant l name false := by
  rw [advance.eq_def]
  simp [hdir, hname, he]

theorem advance_down_missing (he : d.entryAt (name :: l) = none) (hnil : rest ≠ [])
    (hslash : rest ≠ [.slash]) :
    d.advance purpose l (.down name :: rest) = .stuck .notFound := by
  rw [advance.eq_8 d purpose l rest name hnil hslash]
  simp [hdir, hname, he, hslash]

end

/-- Walks to the end; `links` are the links that may still be replaced. -/
def follow (d : Disk) (purpose : Purpose) : Nat → Location → List Step → Except Fault Spot
  | links, l, steps =>
    match d.advance purpose l steps with
    | .arrived l slash => .ok (.occupied l slash)
    | .vacant dir name slash => .ok (.vacant dir name slash)
    | .stuck fault => .error fault
    | .atLink dir target rest =>
      match links with
      | 0 => .error .tooManyLinks
      | links + 1 => follow d purpose links (target.start dir) (target.steps ++ rest)

section
variable {d : Disk} {purpose : Purpose} {l : Location} {steps : List Step}

theorem follow_arrived {m : Location} {slash : Bool}
    (h : d.advance purpose l steps = .arrived m slash) (links : Nat) :
    d.follow purpose links l steps = .ok (.occupied m slash) := by
  rw [follow.eq_def]
  simp only [h]

theorem follow_vacant {dir : Location} {name : Segment} {slash : Bool}
    (h : d.advance purpose l steps = .vacant dir name slash) (links : Nat) :
    d.follow purpose links l steps = .ok (.vacant dir name slash) := by
  rw [follow.eq_def]
  simp only [h]

theorem follow_stuck {fault : Fault} (h : d.advance purpose l steps = .stuck fault)
    (links : Nat) : d.follow purpose links l steps = .error fault := by
  rw [follow.eq_def]
  simp only [h]

theorem follow_atLink_zero {dir : Location} {target : Path} {rest : List Step}
    (h : d.advance purpose l steps = .atLink dir target rest) :
    d.follow purpose 0 l steps = .error .tooManyLinks := by
  rw [follow.eq_def]
  simp only [h]

theorem follow_atLink_succ {dir : Location} {target : Path} {rest : List Step}
    (h : d.advance purpose l steps = .atLink dir target rest) (links : Nat) :
    d.follow purpose (links + 1) l steps
      = d.follow purpose links (target.start dir) (target.steps ++ rest) := by
  rw [follow.eq_def]
  simp only [h]

end

/-- Walks along a path. -/
def walk (d : Disk) (purpose : Purpose) (p : Path) : Except Fault Spot :=
  match p.refusal? with
  | some fault => .error fault
  | none => d.follow purpose linkLimit (p.start d.workingDir) p.steps

/-! ### What a path leads to -/

/-- The location of what is there, if it is. -/
def settle (d : Disk) : Spot → Except Fault Location
  | .occupied l slash => if slash && !d.isDirectoryAt l then .error .notADirectory else .ok l
  | .vacant _ _ _ => .error .notFound

/-- The location that a path leads to. -/
def find (d : Disk) (p : Path) : Except Fault Location :=
  match d.walk .looking p with
  | .ok spot => d.settle spot
  | .error fault => .error fault

/-- The location that a path leads to name by name, however long the path is. -/
def locate? (d : Disk) (p : Path) : Option Location :=
  if p.isEmpty ∨ 0 ∈ p.bytes then none
  else
    match d.follow .looking linkLimit (p.start d.workingDir) p.steps with
    | .ok spot => (d.settle spot).toOption
    | .error _ => none

/-- What a path leads to, links followed. -/
def entry? (d : Disk) (p : Path) : Option Entry :=
  match d.find p with
  | .ok l => d.entryAt l
  | .error _ => none

/-- Does the path lead to a file? -/
def isFile (d : Disk) (p : Path) : Bool :=
  match d.entry? p with
  | some (.file _) => true
  | _ => false

/-- Does the path lead to a directory? -/
def isDirectory (d : Disk) (p : Path) : Bool := d.entry? p == some .directory

/-- Does the path lead anywhere? -/
def holds (d : Disk) (p : Path) : Bool := (d.entry? p).isSome

/-- The bytes of the file that a path leads to. -/
def readBytes (d : Disk) (p : Path) : Except Fault (List UInt8) :=
  match d.find p with
  | .error fault => .error fault
  | .ok l =>
    match d.entryAt l with
    | some (.file bytes) => .ok bytes
    | _ => .error .isADirectory

/-- The text of the file that a path leads to. -/
def readText (d : Disk) (p : Path) : Except Fault String :=
  match d.readBytes p with
  | .error fault => .error fault
  | .ok bytes =>
    match Text.ofBytes? bytes with
    | some text => .ok text
    | none => .error .notText

/-! ### Resolving paths -/

/-- Do the steps behind a name ask for a directory before they come to another name? -/
def asksDirectory : List Step → Bool
  | [] | .down _ :: _ => false
  | .up :: _ => true
  | .stay :: rest | .slash :: rest => rest.isEmpty || asksDirectory rest

/-- Can everything be asked for by its absolute path that a walk comes to, up to the first link?
Where a directory has to be there, a slash is written behind its path. -/
def advanceFits (d : Disk) (l : Location) : List Step → Bool
  | [] => true
  | .stay :: rest | .slash :: rest => advanceFits d l rest
  | .up :: rest => advanceFits d l.tail rest
  | .down name :: rest =>
    let length := (Location.path (name :: l)).bytes.length
    match d.entryAt (name :: l) with
    | some (.link _) => length ≤ Path.lengthLimit
    | _ =>
      length + (if asksDirectory rest then 1 else 0) ≤ Path.lengthLimit
        && advanceFits d (name :: l) rest

/-- Can everything be asked for by its absolute path that a walk comes to? -/
def followFits (d : Disk) : Nat → Location → List Step → Bool
  | links, l, steps =>
    d.advanceFits l steps &&
      match d.advance .looking l steps with
      | .atLink dir target rest =>
        match links with
        | 0 => true
        | links + 1 => followFits d links (target.start dir) (target.steps ++ rest)
      | _ => true

/-- The location that a path resolves to.  A path is resolved name by name, and everything on the way
is asked for by the absolute path that leads there without links.  How long the path is does not
matter, but none of those absolute paths may be too long. -/
def canonical? (d : Disk) (p : Path) : Option Location :=
  if d.followFits linkLimit (p.start d.workingDir) p.steps then d.locate? p else none

/-- Do both paths resolve to the same place? -/
def sameFile (d : Disk) (p q : Path) : Bool :=
  match d.canonical? p, d.canonical? q with
  | some l, some m => l = m
  | _, _ => false

/-! ### The working directory -/

/-- Is there a directory at a location and at all those above it? -/
def isReached (d : Disk) : Location → Bool
  | [] => true
  | name :: l => d.isDirectoryAt (name :: l) && isReached d l

/-- The absolute path of the working directory, however long it is.  A working directory that has been
removed has none. -/
def currentPath (d : Disk) : Except Fault Path :=
  if d.isReached d.workingDir then .ok d.workingPath else .error .notFound

end Disk

end RulePack
