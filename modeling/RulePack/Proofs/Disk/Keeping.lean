import RulePack.Proofs.Disk.Walks

/-!
# Walks on a disk that has changed

Nothing is ever removed from a disk: directories and links stay, and files stay files.

* `Disk.Keeps` — what is on the first disk is on the second one, of the same kind and with the same
  links;
* `Disk.follow_of_keeps` — a walk that got somewhere gets to the same place;
* `Disk.keeps_of_target`, `Disk.keeps_copy` — writing and copying files keep what is there;
* `Disk.find_of_target`, `Disk.readBytes_of_write` — what is written to a path is found at that path.
-/

namespace RulePack

/-- Where a walk ended, or where its vacant name would lie. -/
def Spot.location : Spot → Location
  | occupied l _ => l
  | vacant dir name _ => name :: dir

/-- Did the path of a walk end in a slash? -/
def Spot.slash : Spot → Bool
  | occupied _ slash | vacant _ _ slash => slash

namespace Disk

/-- What is on `d` is on `d'`, of the same kind, and there are no further links. -/
structure Keeps (d d' : Disk) : Prop where
  workingDir : d'.workingDir = d.workingDir
  directory : ∀ {l}, d.isDirectoryAt l = true → d'.isDirectoryAt l = true
  file : ∀ {l bytes}, d.entryAt l = some (.file bytes) →
    ∃ bytes', d'.entryAt l = some (.file bytes')
  link : ∀ {l target}, d'.entryAt l = some (.link target) ↔ d.entryAt l = some (.link target)

theorem isDirectoryAt_iff {d : Disk} {l : Location} :
    d.isDirectoryAt l = true ↔ d.entryAt l = some .directory := by
  rw [isDirectoryAt, beq_iff_eq]

namespace Keeps

variable {d d' d'' : Disk}

theorem refl (d : Disk) : Keeps d d :=
  ⟨rfl, id, fun h => ⟨_, h⟩, Iff.rfl⟩

theorem trans (h : Keeps d d') (h' : Keeps d' d'') : Keeps d d'' where
  workingDir := h'.workingDir.trans h.workingDir
  directory hl := h'.directory (h.directory hl)
  file hl := by
    obtain ⟨bytes, hbytes⟩ := h.file hl
    exact h'.file hbytes
  link := h'.link.trans h.link

/-- A file may be put where a file or nothing was. -/
theorem put_file {l : Location} (hdir : d.isDirectoryAt l = false)
    (hlink : ∀ target, d.entryAt l ≠ some (.link target)) (bytes : List UInt8) :
    Keeps d (d.put l (.file bytes)) := by
  have hne : l ≠ [] := by
    rintro rfl
    cases hdir
  refine ⟨rfl, fun {m} hm => ?_, fun {m _} hm => ?_, fun {m target} => ?_⟩
  · have h : m ≠ l := by
      rintro rfl
      rw [hm] at hdir
      cases hdir
    rwa [isDirectoryAt, entryAt_put_of_ne d h]
  · by_cases h : m = l
    · exact ⟨bytes, by rw [h, entryAt_put_self d hne]⟩
    · exact ⟨_, by rw [entryAt_put_of_ne d h, hm]⟩
  · by_cases h : m = l
    · rw [h, entryAt_put_self d hne]
      constructor
      · intro hfile
        cases hfile
      · intro hl
        exact absurd hl (hlink target)
    · rw [entryAt_put_of_ne d h]

end Keeps

/-- What has a certain name is the same on both disks. -/
def Spares (d d' : Disk) (name : Segment) : Prop := ∀ m, d'.entryAt (name :: m) = d.entryAt (name :: m)

namespace Spares

variable {d d' d'' : Disk} {name : Segment}

theorem refl (d : Disk) (name : Segment) : Spares d d name := fun _ => rfl

theorem trans (h : Spares d d' name) (h' : Spares d' d'' name) : Spares d d'' name :=
  fun m => (h' m).trans (h m)

theorem put {other : Segment} (h : name ≠ other) (m : Location) (e : Entry) :
    Spares d (d.put (other :: m) e) name := by
  intro l
  refine entryAt_put_of_ne d (fun heq => h ?_) e
  exact (List.cons.inj heq).1

end Spares

/-! ### Walking again -/

variable {d d' : Disk}

/-- How far a walk gets on a disk on which the vacant name is a file. -/
def Carries (d' : Disk) : Progress → Progress → Prop
  | .vacant dir name slash, after =>
    ∀ bytes, d'.entryAt (name :: dir) = some (.file bytes) → after = .arrived (name :: dir) slash
  | .stuck _, _ => True
  | before, after => after = before

theorem advance_of_keeps (h : Keeps d d') (purpose : Purpose) (l : Location) (steps : List Step) :
    Carries d' (d.advance purpose l steps) (d'.advance .looking l steps) := by
  fun_induction advance d purpose l steps with
  | case1 l => rfl
  | case2 l => rfl
  | case3 l rest hdir _ ih => rwa [advance, if_pos (h.directory hdir)]
  | case4 l rest hdir hrest ih =>
    rwa [advance_slash (h.directory hdir) (fun hnil => hrest rfl hnil)]
  | case5 l rest hdir _ ih => rwa [advance, if_pos (h.directory hdir)]
  | case6 => trivial
  | case7 => trivial
  | case8 l rest hdir name _ hname target he =>
    exact advance_down_link (h.directory hdir) hname (by simp) (h.link.mpr he)
  | case9 l rest hdir name _ hname e hlink he _ ih =>
    have hheld : ∃ e', d'.entryAt (name :: l) = some e' ∧ ∀ target, e' ≠ .link target := by
      cases e with
      | link target => exact absurd rfl (hlink target)
      | file bytes =>
        obtain ⟨bytes', he'⟩ := h.file he
        exact ⟨_, he', fun _ => Entry.noConfusion⟩
      | directory =>
        have he' := isDirectoryAt_iff.mp (h.directory (isDirectoryAt_iff.mpr he))
        exact ⟨_, he', fun _ => Entry.noConfusion⟩
    obtain ⟨e', he', hlink'⟩ := hheld
    rwa [advance_down_held (h.directory hdir) hname (by simp) he' hlink']
  | case10 l hdir name hname hnone =>
    intro bytes he'
    exact advance_down_held (h.directory hdir) hname (by simp) he' (fun _ => Entry.noConfusion)
  | case11 l hdir name hname hnone =>
    intro bytes he'
    exact advance_down_held (h.directory hdir) hname (by simp) he' (fun _ => Entry.noConfusion)
  | case12 => trivial
  | case13 => trivial

/-- A walk that got somewhere gets there again; a name that was vacant may have become a file. -/
theorem follow_of_keeps (h : Keeps d d') {purpose : Purpose} {links : Nat} {l : Location}
    {steps : List Step} {spot : Spot} (hwalk : d.follow purpose links l steps = .ok spot)
    (hfile : ∀ dir name slash, spot = .vacant dir name slash →
      ∃ bytes, d'.entryAt (name :: dir) = some (.file bytes)) :
    d'.follow .looking links l steps = .ok (.occupied spot.location spot.slash) := by
  fun_induction follow d purpose links l steps with
  | case1 links l steps m slash hadvance =>
    have hcarries := advance_of_keeps h purpose l steps
    rw [hadvance] at hcarries
    cases hwalk
    exact follow_arrived hcarries links
  | case2 links l steps dir name slash hadvance =>
    have hcarries := advance_of_keeps h purpose l steps
    rw [hadvance] at hcarries
    cases hwalk
    obtain ⟨bytes, he⟩ := hfile dir name slash rfl
    exact follow_arrived (hcarries bytes he) links
  | case3 => cases hwalk
  | case4 => cases hwalk
  | case5 l steps dir target rest hadvance links ih =>
    have hcarries := advance_of_keeps h purpose l steps
    rw [hadvance] at hcarries
    rw [follow_atLink_succ hcarries]
    exact ih hwalk

/-- A walk to something that is there leads there again. -/
theorem follow_occupied_of_keeps (h : Keeps d d') {purpose : Purpose} {links : Nat} {l m : Location}
    {steps : List Step} {slash : Bool}
    (hwalk : d.follow purpose links l steps = .ok (.occupied m slash)) :
    d'.follow .looking links l steps = .ok (.occupied m slash) :=
  follow_of_keeps h hwalk (fun _ _ _ => Spot.noConfusion)

/-! ### Writing to a path and looking there -/

/-- A path can be written to where a file or nothing is. -/
theorem target_eq_ok {p : Path} {l : Location} (h : d.target p = .ok l) :
    p.refusal? = none
      ∧ ((d.walk .writing p = .ok (.occupied l false) ∧ ∃ bytes, d.entryAt l = some (.file bytes))
        ∨ ∃ dir name, l = name :: dir ∧ d.walk .writing p = .ok (.vacant dir name false)) := by
  rw [target] at h
  constructor
  · cases hrefusal : p.refusal? with
    | none => rfl
    | some fault =>
      rw [walk, hrefusal] at h
      cases h
  · cases hwalk : d.walk .writing p with
    | error fault =>
      rw [hwalk] at h
      cases h
    | ok spot =>
      cases spot with
      | vacant dir name slash =>
        cases slash with
        | true =>
          rw [hwalk] at h
          cases h
        | false =>
          rw [hwalk] at h
          cases h
          exact Or.inr ⟨dir, name, rfl, rfl⟩
      | occupied m slash =>
        simp only [hwalk] at h
        split at h
        · rename_i bytes he
          cases slash with
          | true => cases h
          | false =>
            cases h
            exact Or.inl ⟨rfl, bytes, he⟩
        · cases h

theorem entryAt_of_vacant {purpose : Purpose} {l dir : Location} {steps : List Step}
    {name : Segment} {slash : Bool} (h : d.advance purpose l steps = .vacant dir name slash) :
    d.entryAt (name :: dir) = none := by
  fun_induction advance d purpose l steps with
  | case1 => cases h
  | case2 => cases h
  | case3 _ _ _ _ ih => exact ih h
  | case4 _ _ _ _ ih => exact ih h
  | case5 _ _ _ _ ih => exact ih h
  | case6 => cases h
  | case7 => cases h
  | case8 => cases h
  | case9 _ _ _ _ _ _ _ _ _ _ ih => exact ih h
  | case10 _ _ _ _ he =>
    cases h
    exact he
  | case11 _ _ _ _ he =>
    cases h
    exact he
  | case12 => cases h
  | case13 => cases h

theorem entryAt_of_follow_vacant {purpose : Purpose} {links : Nat} {l dir : Location}
    {steps : List Step} {name : Segment} {slash : Bool}
    (h : d.follow purpose links l steps = .ok (.vacant dir name slash)) :
    d.entryAt (name :: dir) = none := by
  fun_induction follow d purpose links l steps with
  | case1 => cases h
  | case2 _ _ _ _ _ _ hadvance =>
    cases h
    exact entryAt_of_vacant hadvance
  | case3 => cases h
  | case4 => cases h
  | case5 _ _ _ _ _ _ _ ih => exact ih h

/-- What can be written to is a file or vacant. -/
theorem vacant_or_file_of_target {p : Path} {l : Location} (h : d.target p = .ok l) :
    d.entryAt l = none ∨ ∃ bytes, d.entryAt l = some (.file bytes) := by
  obtain ⟨hrefusal, ⟨-, hfile⟩ | ⟨dir, name, rfl, hwalk⟩⟩ := target_eq_ok h
  · exact Or.inr hfile
  · rw [walk, hrefusal] at hwalk
    exact Or.inl (entryAt_of_follow_vacant hwalk)

theorem ne_nil_of_target {p : Path} {l : Location} (h : d.target p = .ok l) : l ≠ [] := by
  rintro rfl
  rcases vacant_or_file_of_target h with he | ⟨bytes, he⟩
  · cases he
  · cases he

theorem keeps_of_target {p : Path} {l : Location} (h : d.target p = .ok l) (bytes : List UInt8) :
    Keeps d (d.put l (.file bytes)) := by
  rcases vacant_or_file_of_target h with he | ⟨old, he⟩
  · exact Keeps.put_file (by rw [isDirectoryAt, he]; rfl) (by simp [he]) bytes
  · exact Keeps.put_file (by rw [isDirectoryAt, he]; rfl) (by simp [he]) bytes

/-- Copying a file keeps everything that is there. -/
theorem keeps_copy {source destination : Path} (h : d.copy source destination = .ok d') :
    Keeps d d' := by
  rw [copy] at h
  cases hsource : d.find source with
  | error fault =>
    rw [hsource] at h
    cases h
  | ok l =>
    cases htarget : d.target destination with
    | error fault =>
      rw [hsource, htarget] at h
      cases h
    | ok m =>
      rw [hsource, htarget] at h
      cases h
      rw [put_put]
      exact keeps_of_target htarget _

/-- What is written to a path is found at that path. -/
theorem find_of_target {p : Path} {l : Location} (h : d.target p = .ok l) (bytes : List UInt8) :
    (d.put l (.file bytes)).find p = .ok l := by
  have hkeeps := keeps_of_target h bytes
  obtain ⟨hrefusal, ⟨hwalk, -⟩ | ⟨dir, name, rfl, hwalk⟩⟩ := target_eq_ok h
  · rw [walk, hrefusal] at hwalk
    rw [find, walk, hrefusal]
    simp only [hkeeps.workingDir, follow_occupied_of_keeps hkeeps hwalk]
    rfl
  · rw [walk, hrefusal] at hwalk
    have hfound := follow_of_keeps hkeeps hwalk fun dir' name' _ heq => by
      cases heq
      exact ⟨bytes, entryAt_put_self d (List.cons_ne_nil name dir) _⟩
    rw [find, walk, hrefusal]
    simp only [hkeeps.workingDir, hfound]
    rfl

theorem readBytes_of_write {p : Path} {bytes : List UInt8} (h : d.write p bytes = .ok d') :
    d'.readBytes p = .ok bytes := by
  rw [write] at h
  cases htarget : d.target p with
  | error fault =>
    rw [htarget] at h
    cases h
  | ok l =>
    rw [htarget] at h
    cases h
    rw [readBytes, find_of_target htarget bytes]
    simp only [entryAt_put_self d (ne_nil_of_target htarget)]

end Disk

end RulePack
