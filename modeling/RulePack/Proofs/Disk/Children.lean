import RulePack.Proofs.Disk.Keeping
import RulePack.Proofs.Path.Names

/-!
# Names in the directory that a path leads to

* `Disk.dirOf` — the directory that a path leads to, whether or not the path ends in a slash;
* `Disk.isDirectory_iff` — the paths that lead to directories;
* `Disk.isDirectory_of_isFile_child` — what lies around a file that is found is a directory;
* `Disk.walk_child_eq_ok` — the walk along `p.child name` goes to `p` and one step down;
* `Disk.find_child_eq_ok`, `Disk.locate?_child_eq_some`, `Disk.isFile_child_iff`,
  `Disk.readBytes_child_eq_ok` — what is found there;
* `Disk.target_child_eq_ok`, `Disk.write_child_eq_ok` — what is written there.
-/

namespace RulePack

namespace Disk

variable {d d' : Disk} {purpose : Purpose} {l m : Location} {p : Path}

theorem Keeps.unlinked (h : Keeps d d') {name : Segment} (hlink : d.Unlinked name) :
    d'.Unlinked name :=
  fun m target he => hlink m target (h.link.mp he)

/-! ### Directories -/

/-- The directory that a path leads to, whether or not the path ends in a slash.  The empty path
leads to the working directory. -/
def dirOf (d : Disk) (p : Path) : Option Location :=
  match d.follow .looking linkLimit (p.start d.workingDir) (Path.stepsOf p.segments) with
  | .ok (.occupied m _) => if d.isDirectoryAt m then some m else none
  | _ => none

theorem dirOf_eq_some : d.dirOf p = some m
    ↔ d.isDirectoryAt m = true ∧ ∃ slash, d.follow .looking linkLimit (p.start d.workingDir)
        (Path.stepsOf p.segments) = .ok (.occupied m slash) := by
  rw [dirOf]
  split
  · rename_i m' slash hfollow
    rw [hfollow]
    split
    · rename_i hdir
      constructor
      · intro h
        cases h
        exact ⟨hdir, slash, rfl⟩
      · intro h
        obtain ⟨-, _, hspot⟩ := h
        cases hspot
        rfl
    · rename_i hdir
      constructor
      · intro h
        cases h
      · intro h
        obtain ⟨hdir', _, hspot⟩ := h
        cases hspot
        exact absurd hdir' hdir
  · rename_i hfollow
    constructor
    · intro h
      cases h
    · intro h
      obtain ⟨-, slash, hspot⟩ := h
      exact absurd hspot (hfollow m slash)

/-- A directory that a path leads to stays there. -/
theorem dirOf_of_keeps (h : Keeps d d') (hm : d.dirOf p = some m) : d'.dirOf p = some m := by
  obtain ⟨hdir, slash, hfollow⟩ := dirOf_eq_some.mp hm
  refine dirOf_eq_some.mpr ⟨h.directory hdir, slash, ?_⟩
  rw [h.workingDir]
  exact follow_occupied_of_keeps h hfollow

/-- A path leads to a directory with or without a slash at its end. -/
theorem dirOf_eq_some_iff_steps : d.dirOf p = some m ↔ d.isDirectoryAt m = true
    ∧ ∃ slash, d.follow .looking linkLimit (p.start d.workingDir) p.steps
        = .ok (.occupied m slash) := by
  rw [dirOf_eq_some, Path.steps]
  cases p.endsInSlash with
  | false => simp
  | true =>
    rw [if_pos rfl, follow_concat_slash]
    refine and_congr_right fun hdir => ?_
    cases d.follow .looking linkLimit (p.start d.workingDir) (Path.stepsOf p.segments) with
    | error fault => simp
    | ok spot =>
      cases spot with
      | vacant dir name slash => cases slash <;> simp
      | occupied m' slash =>
        simp only [Except.ok.injEq, Spot.occupied.injEq, exists_and_left, exists_eq', and_true]
        constructor
        · intro h
          exact ⟨true, by simp [h, hdir]⟩
        · intro h
          obtain ⟨slash', h⟩ := h
          split at h
          · cases h
          · cases h
            rfl

/-- The paths that lead to directories. -/
theorem isDirectory_iff :
    d.isDirectory p = true ↔ p.refusal? = none ∧ ∃ m, d.dirOf p = some m := by
  rw [isDirectory, beq_iff_eq, entry?]
  constructor
  · intro h
    cases hfind : d.find p with
    | error fault =>
      rw [hfind] at h
      cases h
    | ok m =>
      rw [hfind] at h
      obtain ⟨hrefusal, slash, hfollow, -⟩ := find_eq_ok.mp hfind
      exact ⟨hrefusal, m, dirOf_eq_some_iff_steps.mpr ⟨isDirectoryAt_iff.mpr h, slash, hfollow⟩⟩
  · intro h
    obtain ⟨hrefusal, m, hm⟩ := h
    obtain ⟨hdir, slash, hfollow⟩ := dirOf_eq_some_iff_steps.mp hm
    rw [find_eq_ok.mpr ⟨hrefusal, slash, hfollow, fun _ => hdir⟩]
    exact isDirectoryAt_iff.mp hdir

/-- What lies around a file that is found is a directory, whatever links lead to the file. -/
theorem isDirectory_of_isFile_child {name : String} (hname : Path.IsName (Text.bytes name))
    (hempty : p.isEmpty = false) (h : d.isFile (p.child name) = true) :
    d.isDirectory p = true := by
  obtain ⟨bytes, hread⟩ := isFile_iff.mp h
  obtain ⟨l, hfind, -⟩ := readBytes_eq_ok.mp hread
  obtain ⟨hrefusal, slash, hfollow, -⟩ := find_eq_ok.mp hfind
  rw [Path.start_child hname, Path.steps_child hname] at hfollow
  obtain ⟨m, slash', left, hbefore, hdown⟩ :=
    follow_of_append .looking (List.cons_ne_nil (Step.down (Text.bytes name)) []) (by simp) hfollow
  have hdir : d.isDirectoryAt m = true := by
    rw [← Bool.not_eq_false]
    intro hfalse
    rw [follow_stuck (advance_outside hfalse (by simp))] at hdown
    cases hdown
  have hpath : p.refusal? = none := by
    rw [Path.refusal?_eq_none] at hrefusal ⊢
    obtain ⟨⟨-, hzero⟩, hlength⟩ := hrefusal
    rw [Path.bytes_child hname] at hzero hlength
    split at hzero
    · rw [if_pos ‹_›, List.length_append] at hlength
      rw [List.mem_append, not_or] at hzero
      exact ⟨⟨hempty, hzero.1⟩, by omega⟩
    · rw [if_neg ‹_›, List.length_append] at hlength
      rw [List.mem_append, not_or] at hzero
      exact ⟨⟨hempty, hzero.1⟩, by omega⟩
  exact isDirectory_iff.mpr ⟨hpath, m, dirOf_eq_some.mpr ⟨hdir, slash', hbefore⟩⟩

/-! ### A name in a directory -/

section
variable {name : String} (hname : Path.IsName (Text.bytes name))
  (hlink : d.Unlinked (Text.bytes name))
include hname hlink

/-- The walk to a name in a directory goes to the directory and one step down. -/
theorem follow_child_eq_ok {spot : Spot} :
    d.follow purpose linkLimit ((p.child name).start d.workingDir) (p.child name).steps = .ok spot
      ↔ ∃ m, d.dirOf p = some m ∧ spot = d.spotBelow m (Text.bytes name) := by
  rw [Path.start_child hname, Path.steps_child hname, follow_concat_down hname.2.2.2.2 hlink]
  simp only [dirOf_eq_some]
  constructor
  · intro h
    split at h
    · rename_i m slash hfollow
      split at h
      · rename_i hdir
        cases h
        exact ⟨m, ⟨hdir, slash, hfollow⟩, rfl⟩
      · cases h
    · cases h
    · cases h
  · intro h
    obtain ⟨m, ⟨hdir, slash, hfollow⟩, rfl⟩ := h
    rw [hfollow]
    exact if_pos hdir

theorem walk_child_eq_ok {spot : Spot} : d.walk purpose (p.child name) = .ok spot
    ↔ (p.child name).refusal? = none
      ∧ ∃ m, d.dirOf p = some m ∧ spot = d.spotBelow m (Text.bytes name) := by
  rw [walk_eq_ok, follow_child_eq_ok hname hlink]

/-- Something is found in a directory if it is there. -/
theorem occupied_child_iff : (∃ slash, d.follow .looking linkLimit
      ((p.child name).start d.workingDir) (p.child name).steps = .ok (.occupied l slash)
        ∧ (slash = true → d.isDirectoryAt l = true))
    ↔ ∃ m, d.dirOf p = some m ∧ l = Text.bytes name :: m ∧ d.entryAt l ≠ none := by
  simp only [follow_child_eq_ok hname hlink]
  constructor
  · intro h
    obtain ⟨slash, ⟨m, hm, hspot⟩, -⟩ := h
    rw [spotBelow] at hspot
    split at hspot
    · cases hspot
    · rename_i e he
      cases hspot
      exact ⟨m, hm, rfl, by simp [he]⟩
  · intro h
    obtain ⟨m, hm, rfl, he⟩ := h
    obtain ⟨e, he⟩ := Option.ne_none_iff_exists'.mp he
    exact ⟨false, ⟨m, hm, by rw [spotBelow, he]⟩, by simp⟩

theorem find_child_eq_ok : d.find (p.child name) = .ok l
    ↔ (p.child name).refusal? = none
      ∧ ∃ m, d.dirOf p = some m ∧ l = Text.bytes name :: m ∧ d.entryAt l ≠ none := by
  rw [find_eq_ok, occupied_child_iff hname hlink]

theorem locate?_child_eq_some : d.locate? (p.child name) = some l
    ↔ 0 ∉ (p.child name).bytes
      ∧ ∃ m, d.dirOf p = some m ∧ l = Text.bytes name :: m ∧ d.entryAt l ≠ none := by
  rw [locate?_eq_some, occupied_child_iff hname hlink]
  simp only [Path.isEmpty_child hname, true_and]

/-- A path can be written to if its last name is no directory's. -/
theorem target_child_eq_ok : d.target (p.child name) = .ok l
    ↔ (p.child name).refusal? = none
      ∧ ∃ m, d.dirOf p = some m ∧ l = Text.bytes name :: m ∧ d.entryAt l ≠ some .directory := by
  rw [target]
  cases hwalk : d.walk .writing (p.child name) with
  | error fault =>
    constructor
    · intro h
      cases h
    · intro h
      obtain ⟨hrefusal, m, hm, -⟩ := h
      rw [(walk_child_eq_ok hname hlink).mpr ⟨hrefusal, m, hm, rfl⟩] at hwalk
      cases hwalk
  | ok spot =>
    obtain ⟨hrefusal, m, hm, rfl⟩ := (walk_child_eq_ok hname hlink).mp hwalk
    rw [spotBelow]
    cases he : d.entryAt (Text.bytes name :: m) with
    | none =>
      simp only [hrefusal, hm, Option.some.injEq, exists_eq_left', true_and]
      constructor
      · intro h
        cases h
        exact ⟨rfl, by simp [he]⟩
      · intro h
        rw [h.1]
        rfl
    | some e =>
      simp only [hrefusal, hm, Option.some.injEq, exists_eq_left', true_and, he]
      cases e with
      | link target => exact absurd he (hlink m target)
      | file bytes =>
        constructor
        · intro h
          cases h
          exact ⟨rfl, by simp [he]⟩
        · intro h
          rw [h.1]
          rfl
      | directory =>
        constructor
        · intro h
          cases h
        · intro h
          obtain ⟨rfl, hne⟩ := h
          exact absurd he hne

theorem readBytes_child_eq_ok {bytes : List UInt8} : d.readBytes (p.child name) = .ok bytes
    ↔ (p.child name).refusal? = none
      ∧ ∃ m, d.dirOf p = some m ∧ d.entryAt (Text.bytes name :: m) = some (.file bytes) := by
  simp only [readBytes_eq_ok, find_child_eq_ok hname hlink]
  constructor
  · intro h
    obtain ⟨_, ⟨hrefusal, m, hm, rfl, -⟩, he⟩ := h
    exact ⟨hrefusal, m, hm, he⟩
  · intro h
    obtain ⟨hrefusal, m, hm, he⟩ := h
    exact ⟨_, ⟨hrefusal, m, hm, rfl, by simp [he]⟩, he⟩

theorem isFile_child_iff : d.isFile (p.child name) = true
    ↔ (p.child name).refusal? = none
      ∧ ∃ m bytes, d.dirOf p = some m
        ∧ d.entryAt (Text.bytes name :: m) = some (.file bytes) := by
  simp only [isFile_iff, readBytes_child_eq_ok hname hlink]
  constructor
  · intro h
    obtain ⟨bytes, hrefusal, m, hm, he⟩ := h
    exact ⟨hrefusal, m, bytes, hm, he⟩
  · intro h
    obtain ⟨hrefusal, m, bytes, hm, he⟩ := h
    exact ⟨bytes, hrefusal, m, hm, he⟩

theorem write_child_eq_ok {bytes : List UInt8} : d.write (p.child name) bytes = .ok d'
    ↔ (p.child name).refusal? = none
      ∧ ∃ m, d.dirOf p = some m ∧ d.entryAt (Text.bytes name :: m) ≠ some .directory
        ∧ d' = d.put (Text.bytes name :: m) (.file bytes) := by
  rw [write_eq_ok]
  constructor
  · intro h
    obtain ⟨l, htarget, rfl⟩ := h
    obtain ⟨hrefusal, m, hm, rfl, he⟩ := (target_child_eq_ok hname hlink).mp htarget
    exact ⟨hrefusal, m, hm, he, rfl⟩
  · intro h
    obtain ⟨hrefusal, m, hm, he, rfl⟩ := h
    exact ⟨_, (target_child_eq_ok hname hlink).mpr ⟨hrefusal, m, hm, rfl, he⟩, rfl⟩

/-- Files in a directory are read by their names. -/
theorem readBytes_child_iff (hm : d.dirOf p = some m) {bytes : List UInt8} :
    d.readBytes (p.child name) = .ok bytes ↔ (p.child name).refusal? = none
      ∧ d.entryAt (Text.bytes name :: m) = some (.file bytes) := by
  simp only [readBytes_child_eq_ok hname hlink, hm, Option.some.injEq, exists_eq_left']

/-- The same bytes are read from a file that has the same bytes at its place. -/
theorem readBytes_child_congr (hkeeps : Keeps d d') (hm : d.dirOf p = some m) {bytes : List UInt8}
    (h : d'.entryAt (Text.bytes name :: m) = some (.file bytes)
      ↔ d.entryAt (Text.bytes name :: m) = some (.file bytes)) :
    d'.readBytes (p.child name) = .ok bytes ↔ d.readBytes (p.child name) = .ok bytes := by
  rw [readBytes_child_iff hname (hkeeps.unlinked hlink) (dirOf_of_keeps hkeeps hm),
    readBytes_child_iff hname hlink hm, h]

/-- Writing what is there already changes nothing. -/
theorem write_child_of_readBytes {bytes : List UInt8} (h : d.readBytes (p.child name) = .ok bytes) :
    d.write (p.child name) bytes = .ok d := by
  obtain ⟨hrefusal, m, hm, he⟩ := (readBytes_child_eq_ok hname hlink).mp h
  exact (write_child_eq_ok hname hlink).mpr
    ⟨hrefusal, m, hm, by simp [he], (put_of_entryAt (List.cons_ne_nil _ _) he).symm⟩

end

end Disk

end RulePack
