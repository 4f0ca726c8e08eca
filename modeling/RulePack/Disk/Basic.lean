import RulePack.Path

/-!
# Disks

A disk says what lies at which location.  A location is the list of names that lead to it, the last
one first, so that its tail is the directory around it; the root lies at the empty location and is
always a directory.  An entry whose surroundings are not directories cannot be reached.

A disk is a tree of files that all may be read and written.  It leaves out permissions, which go along
when a file is copied, files that lie at several locations at once, and files that are neither bytes nor
directories nor symbolic links.

* `Entry`: a file, a directory or a symbolic link;
* `Location`, `Location.path`: a location and its absolute path;
* `Disk`, `Disk.entryAt`: a disk and what lies at a location;
* `Disk.put`: the disk with an entry put at a location.
-/

namespace RulePack

/-- Names from an entry up to the root. -/
abbrev Location := List Segment

/-- The absolute path of a location. -/
def Location.path (l : Location) : Path := Path.ofSegments ([] :: l.reverse)

/-- What lies at a location. -/
inductive Entry where
  | file (bytes : List UInt8)
  | directory
  | link (target : Path)
  deriving DecidableEq, Repr

/-- A disk, and the directory from which relative paths start. -/
structure Disk where
  workingDir : Location
  entries : List (Location × Entry)
  deriving DecidableEq, Repr

namespace Disk

/-- What an association list holds for a location. -/
def look (l : Location) : List (Location × Entry) → Option Entry
  | [] => none
  | (k, e) :: rest => if k == l then some e else look l rest

/-- Sets what an association list holds for a location. -/
def set (l : Location) (e : Entry) : List (Location × Entry) → List (Location × Entry)
  | [] => [(l, e)]
  | (k, old) :: rest => if k == l then (k, e) :: rest else (k, old) :: set l e rest

/-- What lies at a location. -/
def entryAt (d : Disk) (l : Location) : Option Entry :=
  if l = [] then some .directory else look l d.entries

/-- The disk with an entry put at a location. -/
def put (d : Disk) (l : Location) (e : Entry) : Disk := { d with entries := set l e d.entries }

/-- The bytes of the file at a location; nothing if there is none. -/
def bytesAt (d : Disk) (l : Location) : List UInt8 :=
  match d.entryAt l with
  | some (.file bytes) => bytes
  | _ => []

/-- The absolute path of the working directory. -/
def workingPath (d : Disk) : Path := d.workingDir.path

theorem look_set_self (l : Location) (e : Entry) (es : List (Location × Entry)) :
    look l (set l e es) = some e := by
  induction es with
  | nil => simp [set, look]
  | cons head rest ih =>
    obtain ⟨k, old⟩ := head
    by_cases h : k = l
    · simp [set, look, h]
    · simp [set, look, h, ih]

theorem look_set_of_ne {l m : Location} (h : m ≠ l) (e : Entry) (es : List (Location × Entry)) :
    look m (set l e es) = look m es := by
  have hne : l ≠ m := fun hl => h hl.symm
  induction es with
  | nil => simp [set, look, hne]
  | cons head rest ih =>
    obtain ⟨k, old⟩ := head
    by_cases hk : k = l
    · simp [set, look, hk, hne]
    · simp [set, look, hk, ih]

theorem set_of_look {l : Location} {e : Entry} {es : List (Location × Entry)}
    (h : look l es = some e) : set l e es = es := by
  induction es with
  | nil => cases h
  | cons head rest ih =>
    obtain ⟨k, old⟩ := head
    by_cases hk : k = l
    · simp only [look, hk, beq_self_eq_true, if_true, Option.some.injEq] at h
      simp [set, hk, h]
    · simp only [look, beq_iff_eq, hk, if_false] at h
      simp [set, hk, ih h]

theorem set_set (l : Location) (e e' : Entry) (es : List (Location × Entry)) :
    set l e' (set l e es) = set l e' es := by
  induction es with
  | nil => simp [set]
  | cons head rest ih =>
    obtain ⟨k, old⟩ := head
    by_cases hk : k = l
    · simp [set, hk]
    · simp [set, hk, ih]

theorem mem_of_look {l : Location} {e : Entry} {es : List (Location × Entry)}
    (h : look l es = some e) : (l, e) ∈ es := by
  induction es with
  | nil => cases h
  | cons head rest ih =>
    obtain ⟨k, old⟩ := head
    by_cases hk : k = l
    · simp only [look, hk, beq_self_eq_true, if_true, Option.some.injEq] at h
      simp [hk, h]
    · simp only [look, beq_iff_eq, hk, if_false] at h
      exact List.mem_cons_of_mem _ (ih h)

/-- What is not a directory is listed. -/
theorem mem_entries_of_entryAt {d : Disk} {l : Location} {e : Entry} (h : d.entryAt l = some e)
    (he : e ≠ .directory) : (l, e) ∈ d.entries := by
  rw [entryAt] at h
  split at h
  · cases h
    exact absurd rfl he
  · exact mem_of_look h

/-- An entry lies where it was put. -/
theorem entryAt_put_self (d : Disk) {l : Location} (hl : l ≠ []) (e : Entry) :
    (d.put l e).entryAt l = some e := by
  simp [entryAt, put, hl, look_set_self]

/-- Nothing else changes. -/
theorem entryAt_put_of_ne (d : Disk) {l m : Location} (h : m ≠ l) (e : Entry) :
    (d.put l e).entryAt m = d.entryAt m := by
  simp [entryAt, put, look_set_of_ne h]

/-- What lies somewhere already may be put there. -/
theorem put_of_entryAt {d : Disk} {l : Location} (hl : l ≠ []) {e : Entry}
    (h : d.entryAt l = some e) : d.put l e = d := by
  rw [entryAt, if_neg hl] at h
  rw [put, set_of_look h]

theorem put_put (d : Disk) (l : Location) (e e' : Entry) : (d.put l e).put l e' = d.put l e' := by
  simp only [put, set_set]

end Disk

end RulePack
