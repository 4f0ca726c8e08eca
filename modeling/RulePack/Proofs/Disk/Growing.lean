import RulePack.Proofs.Disk.Children

/-!
# Directories that are added to a disk

* `Disk.Grows` — a disk with further directories, otherwise unchanged;
* `Disk.makeDirectory_eq_ok` — a directory is made where nothing was;
* `Disk.dirOf_of_makeDirectory` — it lies where its path leads then;
* `Disk.GrowsAlong`, `Disk.growsAlong_makeFrom` — making directories adds directories to which the
  paths lead, whether or not it fails;
* `Disk.refusal?_of_makeFrom` — what has been made can be walked to.
-/

namespace RulePack.Disk

/-- Directories have been added to `d`, and nothing else has changed. -/
structure Grows (d d' : Disk) : Prop where
  workingDir : d'.workingDir = d.workingDir
  entry : ∀ l, d'.entryAt l = d.entryAt l ∨ d.entryAt l = none ∧ d'.entryAt l = some .directory

variable {d d' d'' : Disk} {l : Location}

namespace Grows

theorem refl (d : Disk) : Grows d d := ⟨rfl, fun _ => Or.inl rfl⟩

theorem entryAt_of_some (h : Grows d d') {e : Entry} (he : d.entryAt l = some e) :
    d'.entryAt l = some e := by
  rcases h.entry l with hsame | ⟨hnone, -⟩
  · rw [hsame, he]
  · rw [hnone] at he
    cases he

theorem entryAt_eq_some_iff (h : Grows d d') {e : Entry} (hdir : e ≠ .directory) :
    d'.entryAt l = some e ↔ d.entryAt l = some e := by
  refine ⟨fun he => ?_, h.entryAt_of_some⟩
  rcases h.entry l with hsame | ⟨-, hnew⟩
  · rw [← hsame, he]
  · rw [hnew] at he
    cases he
    exact absurd rfl hdir

theorem trans (h : Grows d d') (h' : Grows d' d'') : Grows d d'' := by
  refine ⟨h'.workingDir.trans h.workingDir, fun l => ?_⟩
  rcases h.entry l with hsame | ⟨hnone, hnew⟩
  · rw [← hsame]
    exact h'.entry l
  · exact Or.inr ⟨hnone, h'.entryAt_of_some hnew⟩

theorem put_directory (hl : d.entryAt l = none) : Grows d (d.put l .directory) := by
  have hne : l ≠ [] := by
    rintro rfl
    cases hl
  refine ⟨rfl, fun m => ?_⟩
  by_cases h : m = l
  · rw [h]
    exact Or.inr ⟨hl, entryAt_put_self d hne _⟩
  · exact Or.inl (entryAt_put_of_ne d h _)

theorem keeps (h : Grows d d') : Keeps d d' where
  workingDir := h.workingDir
  directory hdir := isDirectoryAt_iff.mpr (h.entryAt_of_some (isDirectoryAt_iff.mp hdir))
  file he := ⟨_, h.entryAt_of_some he⟩
  link := h.entryAt_eq_some_iff Entry.noConfusion

end Grows

/-! ### Making directories -/

/-- Slashes at the end of a path ask for no step. -/
theorem stepsOf_reverse_of_dropWhile {ss : List Segment} {last : Segment} {before : List Segment}
    (h : ss.dropWhile (· = []) = last :: before) :
    Path.stepsOf ss.reverse = Path.stepsOf before.reverse ++ [Step.ofSegment last] := by
  induction ss with
  | nil => cases h
  | cons s rest ih =>
    rw [List.reverse_cons, Path.stepsOf_append]
    by_cases hs : s = []
    · rw [List.dropWhile_cons_of_pos (by simpa using hs)] at h
      rw [ih h, hs]
      show _ ++ [] = _
      rw [List.append_nil]
    · rw [List.dropWhile_cons_of_neg (by simpa using hs)] at h
      cases h
      simp [Path.stepsOf, hs]

/-- The directory around a path is where the walk along the segments before its last one ends. -/
theorem follow_of_parentOf {p : Path} {before : List Segment} {dir : Location}
    (h : d.parentOf p before = .ok dir) : d.isDirectoryAt dir = true
      ∧ ∃ slash, d.follow .looking linkLimit (p.start d.workingDir) (Path.stepsOf before)
        = .ok (.occupied dir slash) := by
  rw [parentOf] at h
  split at h
  · rename_i spot hfollow
    obtain ⟨slash, rfl, hslash⟩ := settle_eq_ok.mp h
    rw [follow_concat_slash] at hfollow
    split at hfollow
    · rename_i m slash' hbefore
      split at hfollow
      · cases hfollow
      · cases hfollow
        exact ⟨hslash rfl, slash', hbefore⟩
    · split at hfollow
      · cases hfollow
      · cases hfollow
    · cases hfollow
  · cases h

/-- A directory is made where nothing was, in the directory around a path that can be walked to. -/
theorem makeDirectory_eq_ok {p : Path} {made : Disk} (h : d.makeDirectory p = .ok made) :
    p.refusal? = none ∧ ∃ last before dir name, lastFirst p = last :: before
      ∧ d.parentOf p before.reverse = .ok dir ∧ Step.ofSegment last = .down name
      ∧ ¬nameLimit < name.length ∧ d.entryAt (name :: dir) = none
      ∧ made = d.put (name :: dir) .directory := by
  rw [makeDirectory] at h
  cases hrefusal : p.refusal? with
  | some fault =>
    rw [hrefusal] at h
    cases h
  | none =>
    simp only [hrefusal] at h
    refine ⟨rfl, ?_⟩
    split at h
    · cases h
    · rename_i last before hsegments
      split at h
      · cases h
      · rename_i dir hparent
        split at h
        · rename_i name hdown
          split at h
          · cases h
          · rename_i hname
            split at h
            · cases h
            · rename_i hsome
              cases h
              exact ⟨last, before, dir, name, hsegments, hparent, hdown, hname, by simpa using hsome,
                rfl⟩
        · cases h

theorem grows_makeDirectory {p : Path} {made : Disk} (h : d.makeDirectory p = .ok made) :
    Grows d made := by
  obtain ⟨-, -, -, dir, name, -, -, -, -, hnone, rfl⟩ := makeDirectory_eq_ok h
  exact Grows.put_directory hnone

/-- A directory lies where the path leads at which it has been made. -/
theorem dirOf_of_makeDirectory {p : Path} {made : Disk} (h : d.makeDirectory p = .ok made) :
    ∃ l, made = d.put l .directory ∧ made.dirOf p = some l := by
  have hkeeps := (grows_makeDirectory h).keeps
  obtain ⟨-, last, before, dir, name, hsegments, hparent, hdown, hname, hnone, rfl⟩ :=
    makeDirectory_eq_ok h
  refine ⟨name :: dir, rfl, ?_⟩
  have hheld := entryAt_put_self d (List.cons_ne_nil name dir) .directory
  obtain ⟨hdir, slash, hfollow⟩ := follow_of_parentOf hparent
  have hsteps : Path.stepsOf p.segments = Path.stepsOf before.reverse ++ [.down name] := by
    rw [← hdown, ← stepsOf_reverse_of_dropWhile hsegments, List.reverse_reverse]
  obtain ⟨left, hleft⟩ := follow_append .looking (List.cons_ne_nil (Step.down name) []) (by simp)
    (follow_occupied_of_keeps hkeeps hfollow)
  refine dirOf_eq_some.mpr ⟨isDirectoryAt_iff.mpr hheld, false, ?_⟩
  rw [hkeeps.workingDir, hsteps, hleft]
  refine follow_arrived ?_ left
  exact advance_down_held (hkeeps.directory hdir) hname (by simp) hheld
    (fun _ => Entry.noConfusion)

/-- Directories have been added to `d`, each where one of the paths leads. -/
structure GrowsAlong (ps : List Path) (d d' : Disk) : Prop where
  grows : Grows d d'
  path : ∀ l, d'.entryAt l = d.entryAt l ∨ ∃ p ∈ ps, p.refusal? = none ∧ d'.dirOf p = some l

namespace GrowsAlong

variable {ps qs : List Path}

theorem refl (ps : List Path) (d : Disk) : GrowsAlong ps d d :=
  ⟨Grows.refl d, fun _ => Or.inl rfl⟩

theorem trans (h : GrowsAlong ps d d') (h' : GrowsAlong ps d' d'') : GrowsAlong ps d d'' := by
  refine ⟨h.grows.trans h'.grows, fun l => ?_⟩
  rcases h'.path l with hsame | hmade
  · rw [hsame]
    rcases h.path l with hsame' | ⟨p, hp, hrefusal, hdir⟩
    · exact Or.inl hsame'
    · exact Or.inr ⟨p, hp, hrefusal, dirOf_of_keeps h'.grows.keeps hdir⟩
  · exact Or.inr hmade

theorem mono (h : GrowsAlong ps d d') (hsub : ∀ p ∈ ps, p ∈ qs) : GrowsAlong qs d d' := by
  refine ⟨h.grows, fun l => ?_⟩
  rcases h.path l with hsame | ⟨p, hp, hmade⟩
  · exact Or.inl hsame
  · exact Or.inr ⟨p, hsub p hp, hmade⟩

end GrowsAlong

theorem growsAlong_makeDirectory {p : Path} {made : Disk} (h : d.makeDirectory p = .ok made)
    {ps : List Path} (hp : p ∈ ps) : GrowsAlong ps d made := by
  refine ⟨grows_makeDirectory h, fun l => ?_⟩
  obtain ⟨m, rfl, hdir⟩ := dirOf_of_makeDirectory h
  by_cases hl : l = m
  · rw [hl]
    exact Or.inr ⟨p, hp, (makeDirectory_eq_ok h).1, hdir⟩
  · exact Or.inl (entryAt_put_of_ne d hl _)

/-- Making directories adds directories to which the paths lead, also if it fails half way. -/
theorem growsAlong_makeFrom (ps : List Path) (d : Disk) :
    GrowsAlong ps d (d.makeFrom ps).disk := by
  induction ps with
  | nil => exact GrowsAlong.refl [] d
  | cons p above ih =>
    have habove := ih.mono (fun q hq => List.mem_cons_of_mem p hq)
    rw [makeFrom]
    split
    · exact GrowsAlong.refl _ d
    · split
      · rename_i made hmade
        exact growsAlong_makeDirectory hmade List.mem_cons_self
      · simp only
        split
        · exact habove
        · split
          · rename_i made hmade
            exact habove.trans (growsAlong_makeDirectory hmade List.mem_cons_self)
          · exact habove
      · exact GrowsAlong.refl _ d

/-- What has been made can be walked to, unless it is the empty path, where nothing is made. -/
theorem refusal?_of_makeFrom {p : Path} {above : List Path}
    (h : (d.makeFrom (p :: above)).fault = none) : p.isEmpty = true ∨ p.refusal? = none := by
  rw [makeFrom] at h
  split at h
  · rename_i hempty
    exact Or.inl hempty
  · right
    split at h
    · rename_i made hmade
      exact (makeDirectory_eq_ok hmade).1
    · simp only at h
      split at h
      · rename_i fault hfault
        rw [hfault] at h
        cases h
      · split at h
        · rename_i made hmade
          exact (makeDirectory_eq_ok hmade).1
        · simp only [ite_eq_left_iff, reduceCtorEq, imp_false, Bool.not_eq_true,
            Bool.not_eq_false] at h
          exact (isDirectory_iff.mp h).1
    · simp only [ite_eq_left_iff, reduceCtorEq, imp_false, Bool.not_eq_true,
        Bool.not_eq_false] at h
      exact (isDirectory_iff.mp h).1

end RulePack.Disk
