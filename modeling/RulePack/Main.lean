import RulePack.Package.BuiltIn
import RulePack.Program.Footprint

/-!
# The command line

The program runs on a copy of that part of the disk that it may ask about; what it has changed in
the copy is then written to the disk.
-/

namespace RulePack.Main

/-- The location of a canonical path. -/
def locationOf (canonical : String) : Location :=
  ((Path.ofText canonical).segments.filter (· ≠ [])).reverse

/-- The canonical path of what lies at a path, if anything does. -/
def canonical? (p : Path) : IO (Option String) := do
  try
    let found ← IO.FS.realPath p.shown
    return some found.toString
  catch _ => return none

/-- The copy of a disk with what lies at an absolute path.  A path whose canonical form differs from
the place at which it was found is a link. -/
def capture (d : Disk) (p : Path) : IO Disk := do
  let some canonical ← canonical? p | return d
  let l := locationOf canonical
  let entry ← try
    let bytes ← IO.FS.readBinFile canonical
    pure (Entry.file bytes.toList)
  catch _ => pure Entry.directory
  let d := if l.isEmpty then d else d.put l entry
  match Disk.lastFirst p, p.strictAncestors with
  | name :: _, dir :: _ =>
    if name = Path.here ∨ name = Path.above then return d
    let some around ← canonical? dir | return d
    let found := name :: locationOf around
    return if found = l then d else d.put found (.link (Path.ofText canonical))
  | _, _ => return d

/-- The copy of a disk with what lies at absolute paths and above them. -/
def captureAll (d : Disk) (ps : List Path) : IO Disk :=
  (ps.flatMap (fun p => p.strictAncestors.reverse ++ [p])).eraseDups.foldlM capture d

/-- Writes what differs from the copy that was taken. -/
def writeBack (old new : Disk) : IO Unit :=
  new.entries.forM fun (l, e) =>
    if Disk.look l old.entries = some e then pure ()
    else
      match e with
      | .directory => IO.FS.createDirAll l.path.shown
      | .file bytes => IO.FS.writeBinFile l.path.shown (ByteArray.mk bytes.toArray)
      | .link _ => pure ()

/-- The location of the working directory; one at which nothing lies if it has been removed. -/
def workingDir : IO Location := do
  let some canonical ← canonical? (Path.ofText ".") | return [[]]
  return locationOf canonical

/-- The root of the built-in package. -/
def builtInRoot : Path := Path.ofText "/usr/local/share/biome-plugin-react-compiler"

/-- Runs the program on the disk. -/
def run (words : List String) : IO UInt32 := do
  let envRoot ← IO.getEnv Usage.variableName
  let program ← IO.appPath
  let s : Program.Surroundings :=
    ⟨envRoot.map Text.bytes, ⟨some (Path.ofText program.toString), builtInRoot⟩⟩
  let arguments := words.map Text.bytes
  let bare : Disk := ⟨← workingDir, []⟩
  let footprint := Program.footprint Program.textsOnly s arguments bare.workingPath
  let taken ← captureAll bare (bare.workingPath :: footprint)
  let disk := Package.provide builtInRoot taken
  let outcome := Program.run Program.textsOnly s arguments disk
  writeBack disk outcome.disk
  IO.print outcome.out
  IO.eprint outcome.err
  return UInt32.ofNat outcome.status

end RulePack.Main

/-- The program. -/
def main (words : List String) : IO UInt32 := RulePack.Main.run words
