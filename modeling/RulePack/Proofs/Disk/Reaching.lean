import RulePack.Proofs.Disk.Children

/-!
# Files that paths lead to

* `Progress.slashless`, `Disk.follow_writing` — a walk for writing goes where a walk for looking does,
  unless a slash follows its last name;
* `Disk.target_of_find`, `Disk.write_of_isFile` — a file that is found can be written to, through
  whatever links;
* `Disk.locate?_of_keeps`, `Disk.locate?_of_dirOf` — where paths lead to, name by name;
* `Disk.keeps_put_file`, `Disk.isFile_of_keeps` — writing to a file leaves it, and every other one, a
  file;
* `Disk.HasFile` — the bytes of the file that a path leads to, however long the path is.
-/

namespace RulePack

/-- Does the walk get somewhere, with no slash behind the last name as far as it got? -/
def Progress.slashless : Progress → Bool
  | .arrived _ slash | .vacant _ _ slash => !slash
  | .atLink _ _ rest => rest != [.slash]
  | .stuck _ => false

namespace Disk

variable {d d' : Disk} {links : Nat} {l : Location} {steps : List Step} {p : Path}
  {bytes : List UInt8}

/-! ### Walking in order to write -/

/-- What a walk is for makes no difference unless a slash follows the last name. -/
theorem advance_writing {after : Progress} (h : d.advance .looking l steps = after)
    (hafter : after.slashless = true) : d.advance .writing l steps = after := by
  subst h
  fun_induction advance d .looking l steps with
  | case1 l => rfl
  | case2 l => rfl
  | case3 l rest hdir _ ih =>
    rw [advance, if_pos hdir]
    exact ih hafter
  | case4 l rest hdir hrest ih =>
    rw [advance_slash hdir (fun hnil => hrest rfl hnil)]
    exact ih hafter
  | case5 l rest hdir _ ih =>
    rw [advance, if_pos hdir]
    exact ih hafter
  | case6 l rest hdir name hw => exact absurd hw.1 (by simp)
  | case7 => cases hafter
  | case8 l rest hdir name _ hname target he =>
    have hslash : rest ≠ [.slash] := by simpa [Progress.slashless] using hafter
    exact advance_down_link hdir hname (fun hw => hslash hw.2) he
  | case9 l rest hdir name _ hname e hlink he _ ih =>
    have hslash : rest ≠ [.slash] := by
      rintro rfl
      cases hafter
    rw [advance_down_held hdir hname (fun hw => hslash hw.2) he hlink]
    exact ih hafter
  | case10 l hdir name hname he => exact advance_down_vacant hdir hname he
  | case11 => cases hafter
  | case12 => cases hafter
  | case13 => cases hafter

/-- A walk along a path that ends in a slash ends with one. -/
theorem slash_of_follow_concat_slash {spot : Spot}
    (h : d.follow .looking links l (steps ++ [.slash]) = .ok spot) : spot.slash = true := by
  rw [follow_concat_slash] at h
  split at h
  · split at h
    · cases h
    · cases h
      rfl
  · split at h
    · cases h
    · cases h
      rfl
  · cases h

/-- A walk for writing ends where a walk for looking does, if that ends without a slash. -/
theorem follow_writing {spot : Spot} (h : d.follow .looking links l steps = .ok spot)
    (hslash : spot.slash = false) : d.follow .writing links l steps = .ok spot := by
  -- along the walk for looking: a step that differed would leave a slash at its end
  fun_induction follow d .looking links l steps with
  | case1 links l steps m slash hadvance =>
    cases h
    have hfalse : slash = false := hslash
    subst hfalse
    exact follow_arrived (advance_writing hadvance rfl) links
  | case2 links l steps dir name slash hadvance =>
    cases h
    have hfalse : slash = false := hslash
    subst hfalse
    exact follow_vacant (advance_writing hadvance rfl) links
  | case3 => cases h
  | case4 => cases h
  | case5 l steps dir target rest hadvance left ih =>
    have hrest : rest ≠ [.slash] := by
      rintro rfl
      rw [slash_of_follow_concat_slash h] at hslash
      cases hslash
    rw [follow_atLink_succ (advance_writing hadvance (by simpa [Progress.slashless] using hrest))]
    exact ih h

/-- A file that is found can be written to. -/
theorem target_of_find (hfind : d.find p = .ok l) (he : d.entryAt l = some (.file bytes)) :
    d.target p = .ok l := by
  obtain ⟨hrefusal, slash, hfollow, hslash⟩ := find_eq_ok.mp hfind
  have hfalse : slash = false := by
    cases slash with
    | false => rfl
    | true =>
      have hdir := hslash rfl
      rw [isDirectoryAt, he] at hdir
      cases hdir
  have hwalk : d.walk .writing p = .ok (.occupied l false) :=
    walk_eq_ok.mpr ⟨hrefusal, hfalse ▸ follow_writing hfollow hfalse⟩
  rw [target, hwalk]
  simp only [he]
  rfl

/-- A file that a path leads to can be replaced there. -/
theorem write_of_isFile (h : d.isFile p = true) (bytes : List UInt8) : ∃ l old,
    d.find p = .ok l ∧ d.entryAt l = some (.file old)
      ∧ d.write p bytes = .ok (d.put l (.file bytes)) := by
  obtain ⟨old, hread⟩ := isFile_iff.mp h
  obtain ⟨l, hfind, he⟩ := readBytes_eq_ok.mp hread
  exact ⟨l, old, hfind, he, write_eq_ok.mpr ⟨l, target_of_find hfind he, rfl⟩⟩

/-- What can be written to is found, or there is nothing yet. -/
theorem find_or_vacant_of_target (h : d.target p = .ok l) :
    d.find p = .ok l ∨ d.entryAt l = none := by
  rcases vacant_or_file_of_target h with hnone | ⟨old, he⟩
  · exact Or.inr hnone
  · obtain ⟨hrefusal, ⟨hwalk, -⟩ | ⟨dir, name, rfl, hwalk⟩⟩ := target_eq_ok h
    · have hfollow := follow_occupied_of_keeps (Keeps.refl d) (walk_eq_ok.mp hwalk).2
      exact Or.inl (find_eq_ok.mpr ⟨hrefusal, false, hfollow, by simp⟩)
    · rw [entryAt_of_follow_vacant (walk_eq_ok.mp hwalk).2] at he
      cases he

/-! ### Where paths lead to -/

/-- A location is found by a path that is not refused just as it is found name by name. -/
theorem find_eq_ok_iff_locate? :
    d.find p = .ok l ↔ p.refusal? = none ∧ d.locate? p = some l := by
  rw [find_eq_ok, locate?_eq_some, Path.refusal?_eq_none]
  constructor
  · intro h
    obtain ⟨hpath, hfound⟩ := h
    exact ⟨hpath, hpath.1, hfound⟩
  · intro h
    obtain ⟨hpath, -, hfound⟩ := h
    exact ⟨hpath, hfound⟩

/-- What a path leads to stays there. -/
theorem locate?_of_keeps (h : Keeps d d') (hl : d.locate? p = some l) :
    d'.locate? p = some l := by
  obtain ⟨hpath, slash, hfollow, hslash⟩ := locate?_eq_some.mp hl
  refine locate?_eq_some.mpr ⟨hpath, slash, ?_, fun htrue => h.directory (hslash htrue)⟩
  rw [h.workingDir]
  exact follow_occupied_of_keeps h hfollow

/-- Bytes that take the place of a file keep everything else as it was, and can be taken back. -/
theorem keeps_put_file {d : Disk} {l : Location} {old : List UInt8}
    (he : d.entryAt l = some (.file old)) (bytes : List UInt8) :
    d.Keeps (d.put l (.file bytes)) ∧ (d.put l (.file bytes)).Keeps d := by
  have hne : l ≠ [] := by
    rintro rfl
    cases he
  have hput : (d.put l (.file bytes)).entryAt l = some (.file bytes) :=
    entryAt_put_self d hne _
  refine ⟨Keeps.put_file (by rw [isDirectoryAt, he]; rfl) (by simp [he]) bytes, ?_⟩
  have hback := Keeps.put_file (d := d.put l (.file bytes)) (by rw [isDirectoryAt, hput]; rfl)
    (by simp [hput]) old
  rwa [put_put, put_of_entryAt hne he] at hback

/-- A file stays a file. -/
theorem isFile_of_keeps {d d' : Disk} (h : d.Keeps d') {p : Path} (hfile : d.isFile p = true) :
    d'.isFile p = true := by
  obtain ⟨bytes, hread⟩ := isFile_iff.mp hfile
  obtain ⟨l, hfind, he⟩ := readBytes_eq_ok.mp hread
  obtain ⟨hrefusal, hcanonical⟩ := find_eq_ok_iff_locate?.mp hfind
  obtain ⟨bytes', he'⟩ := h.file he
  exact isFile_iff.mpr ⟨bytes', readBytes_eq_ok.mpr
    ⟨l, find_eq_ok_iff_locate?.mpr ⟨hrefusal, locate?_of_keeps h hcanonical⟩, he'⟩⟩

/-- The directory that a path leads to lies where it leads name by name. -/
theorem locate?_of_dirOf (hrefusal : p.refusal? = none) (h : d.dirOf p = some l) :
    d.locate? p = some l := by
  obtain ⟨hdir, slash, hfollow⟩ := dirOf_eq_some_iff_steps.mp h
  exact locate?_eq_some.mpr
    ⟨(Path.refusal?_eq_none.mp hrefusal).1, slash, hfollow, fun _ => hdir⟩

/-- The path leads to a file with these bytes, however long the path is. -/
def HasFile (d : Disk) (p : Path) (bytes : List UInt8) : Prop :=
  ∃ l, d.locate? p = some l ∧ d.entryAt l = some (.file bytes)

/-- A path to a name in a directory leads to the file of that name. -/
theorem hasFile_child_iff {name : String} (hname : Path.IsName (Text.bytes name))
    (hlink : d.Unlinked (Text.bytes name)) : d.HasFile (p.child name) bytes
    ↔ 0 ∉ (p.child name).bytes
      ∧ ∃ m, d.dirOf p = some m ∧ d.entryAt (Text.bytes name :: m) = some (.file bytes) := by
  simp only [HasFile, locate?_child_eq_some hname hlink]
  constructor
  · intro h
    obtain ⟨_, ⟨hzero, m, hm, rfl, -⟩, he⟩ := h
    exact ⟨hzero, m, hm, he⟩
  · intro h
    obtain ⟨hzero, m, hm, he⟩ := h
    exact ⟨_, ⟨hzero, m, hm, rfl, by simp [he]⟩, he⟩

end Disk

end RulePack
