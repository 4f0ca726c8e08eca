import RulePack.Disk.Walk

/-!
# Changing a disk

Making directories, and writing and copying files.  A file is written through symbolic links and is
emptied before anything is written to it.

* `Disk.makeDirectory`: one directory;
* `Disk.makeDirectories`: a directory with those that it lies in, as far as that goes;
* `Disk.target`: the location at which a path can be written to;
* `Disk.write`, `Disk.copy`: writing a text, and copying a file.
-/

namespace RulePack.Disk

/-! ### Directories -/

/-- The segments of a path from its last one on upwards, slashes at the end left out. -/
def lastFirst (p : Path) : List Segment := p.segments.reverse.dropWhile (· = [])

/-- The location of the directory in which the last segment of a path lies. -/
def parentOf (d : Disk) (p : Path) (before : List Segment) : Except Fault Location :=
  match d.follow .looking linkLimit (p.start d.workingDir) (Path.stepsOf before ++ [.slash]) with
  | .ok spot => d.settle spot
  | .error fault => .error fault

/-- Makes a directory at a path whose surroundings are there. -/
def makeDirectory (d : Disk) (p : Path) : Except Fault Disk :=
  match p.refusal? with
  | some fault => .error fault
  | none =>
    match lastFirst p with
    | [] => .error .alreadyExists
    | last :: before =>
      match d.parentOf p before.reverse with
      | .error fault => .error fault
      | .ok dir =>
        match Step.ofSegment last with
        | .down name =>
          if nameLimit < name.length then .error .nameTooLong
          else if (d.entryAt (name :: dir)).isSome then .error .alreadyExists
          else .ok (d.put (name :: dir) .directory)
        | _ => .error .alreadyExists

/-- The disk after an attempt, and the fault in which it ended, if any. -/
structure Attempt where
  disk : Disk
  fault : Option Fault
  deriving DecidableEq, Repr

/-- Makes a directory, after those above it if they are missing.  The list holds the path and the
paths above it; the empty path is always there.  Directories made before a fault stay. -/
def makeFrom (d : Disk) : List Path → Attempt
  | [] => ⟨d, some .notFound⟩
  | p :: above =>
    if p.isEmpty then ⟨d, none⟩
    else
      match d.makeDirectory p with
      | .ok made => ⟨made, none⟩
      | .error .notFound =>
        let attempt := makeFrom d above
        match attempt.fault with
        | some _ => attempt
        | none =>
          match attempt.disk.makeDirectory p with
          | .ok made => ⟨made, none⟩
          | .error fault =>
            ⟨attempt.disk, if attempt.disk.isDirectory p then none else some fault⟩
      | .error fault => ⟨d, if d.isDirectory p then none else some fault⟩

/-- Makes a directory with those that it lies in. -/
def makeDirectories (d : Disk) (p : Path) : Attempt := d.makeFrom (p :: p.strictAncestors)

/-! ### Files -/

/-- The location at which a path can be written to: a file that is there, or a vacant name in a
directory that is there. -/
def target (d : Disk) (p : Path) : Except Fault Location :=
  match d.walk .writing p with
  | .error fault => .error fault
  | .ok (.vacant dir name slash) => if slash then .error .isADirectory else .ok (name :: dir)
  | .ok (.occupied l slash) =>
    match d.entryAt l with
    | some (.file _) => if slash then .error .isADirectory else .ok l
    | _ => .error .isADirectory

/-- Writes bytes to the file at a path, which is made if it is not there. -/
def write (d : Disk) (p : Path) (bytes : List UInt8) : Except Fault Disk :=
  match d.target p with
  | .error fault => .error fault
  | .ok l => .ok (d.put l (.file bytes))

/-- Copies a file to a path.  The file at that path is emptied before the first byte is read, so
that copying a file to itself would lose it. -/
def copy (d : Disk) (source destination : Path) : Except Fault Disk :=
  match d.find source, d.target destination with
  | .error fault, _ => .error fault
  | .ok _, .error fault => .error fault
  | .ok l, .ok m =>
    let emptied := d.put m (.file [])
    .ok (emptied.put m (.file (emptied.bytesAt l)))

end RulePack.Disk
