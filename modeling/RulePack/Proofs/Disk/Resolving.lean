import RulePack.Proofs.Disk.Reaching

/-!
# Resolving paths

* `Disk.canonical?_eq_some` — a path resolves to what it leads to, if nothing on the way lies too deep;
* `Disk.Shallow`, `Disk.canonical?_of_shallow` — a disk on which nothing lies too deep;
* `Disk.advanceFits_of_keeps`, `Disk.followFits_of_keeps`, `Disk.canonical?_of_keeps` — what a path that
  leads somewhere resolves to stays the same;
* `Disk.sameFile_iff`, `Disk.sameFile_of_keeps` — whether two paths resolve to the same place.
-/

namespace RulePack

/-- Did the walk get to something that is there? -/
def Progress.getsOn : Progress → Bool
  | .arrived _ _ | .atLink _ _ _ => true
  | .vacant _ _ _ | .stuck _ => false

namespace Disk

variable {d d' : Disk} {links : Nat} {l m : Location} {name : Segment} {steps rest : List Step}
  {p q : Path}

theorem canonical?_eq_some : d.canonical? p = some l
    ↔ d.followFits linkLimit (p.start d.workingDir) p.steps = true ∧ d.locate? p = some l := by
  rw [canonical?]
  split
  · rename_i hfits
    simp [hfits]
  · rename_i hfits
    simp [hfits]

/-! ### Walking to a name -/

theorem advanceFits_link {target : Path} (he : d.entryAt (name :: l) = some (.link target)) :
    d.advanceFits l (.down name :: rest)
      = decide ((Location.path (name :: l)).bytes.length ≤ Path.lengthLimit) := by
  rw [advanceFits]
  simp only [he]

theorem advanceFits_held (hlink : ∀ target, d.entryAt (name :: l) ≠ some (.link target)) :
    d.advanceFits l (.down name :: rest)
      = (decide ((Location.path (name :: l)).bytes.length + (if asksDirectory rest then 1 else 0)
          ≤ Path.lengthLimit) && d.advanceFits (name :: l) rest) := by
  rw [advanceFits]
  split
  · rename_i target he
    exact absurd he (hlink target)
  · rfl

theorem followFits_arrived {slash : Bool} (h : d.advance .looking l steps = .arrived m slash)
    (links : Nat) : d.followFits links l steps = d.advanceFits l steps := by
  rw [followFits.eq_def]
  simp only [h, Bool.and_true]

theorem followFits_atLink {dir : Location} {target : Path}
    (h : d.advance .looking l steps = .atLink dir target rest) (links : Nat) :
    d.followFits (links + 1) l steps
      = (d.advanceFits l steps && d.followFits links (target.start dir) (target.steps ++ rest)) := by
  rw [followFits.eq_def]
  simp only [h]

/-! ### A disk on which nothing lies too deep -/

/-- Everything on the disk can be asked for by its absolute path, with a slash behind it. -/
def Shallow (d : Disk) : Prop :=
  ∀ l, d.entryAt l ≠ none → l.path.bytes.length < Path.lengthLimit

theorem advanceFits_of_shallow (h : d.Shallow)
    (hadvance : (d.advance .looking l steps).getsOn = true) :
    d.advanceFits l steps = true := by
  fun_induction advance d .looking l steps with
  | case1 => rfl
  | case2 => rfl
  | case3 l rest _ _ ih => exact ih hadvance
  | case4 l rest _ _ ih => exact ih hadvance
  | case5 l rest _ _ ih => exact ih hadvance
  | case6 => cases hadvance
  | case7 => cases hadvance
  | case8 l rest hdir name _ hname target he =>
    rw [advanceFits_link he]
    have hshort := h (name :: l) (by simp [he])
    simpa using Nat.le_of_lt hshort
  | case9 l rest hdir name _ hname e hlink he _ ih =>
    rw [advanceFits_held (fun target ht => hlink target (Option.some.inj (he.symm.trans ht))),
      ih hadvance]
    have hshort := h (name :: l) (by simp [he])
    have hslash : (if asksDirectory rest then 1 else 0) ≤ 1 := by split <;> omega
    simp only [Bool.and_true, decide_eq_true_eq]
    omega
  | case10 => cases hadvance
  | case11 => cases hadvance
  | case12 => cases hadvance
  | case13 => cases hadvance

theorem followFits_of_shallow (h : d.Shallow) {slash : Bool}
    (hfollow : d.follow .looking links l steps = .ok (.occupied m slash)) :
    d.followFits links l steps = true := by
  fun_induction follow d .looking links l steps with
  | case1 links l steps m' slash' hadvance =>
    rw [followFits_arrived hadvance]
    exact advanceFits_of_shallow h (by rw [hadvance]; rfl)
  | case2 => cases hfollow
  | case3 => cases hfollow
  | case4 => cases hfollow
  | case5 l steps dir target rest hadvance links ih =>
    rw [followFits_atLink hadvance, advanceFits_of_shallow h (by rw [hadvance]; rfl), ih hfollow]
    rfl

/-- Where nothing lies too deep, every path resolves to what it leads to. -/
theorem canonical?_of_shallow (h : d.Shallow) (p : Path) : d.canonical? p = d.locate? p := by
  cases hp : d.locate? p with
  | none =>
    rw [canonical?, hp]
    split <;> rfl
  | some l =>
    obtain ⟨-, slash, hfollow, -⟩ := locate?_eq_some.mp hp
    exact canonical?_eq_some.mpr ⟨followFits_of_shallow h hfollow, hp⟩

/-! ### On a disk that has changed -/

/-- Only the links on the way matter. -/
theorem advanceFits_of_keeps (h : Keeps d d') (l : Location) (steps : List Step) :
    d'.advanceFits l steps = d.advanceFits l steps := by
  induction steps generalizing l with
  | nil => rfl
  | cons step rest ih =>
    cases step with
    | stay => exact ih l
    | slash => exact ih l
    | up => exact ih l.tail
    | down name =>
      by_cases hlink : ∃ target, d.entryAt (name :: l) = some (.link target)
      · obtain ⟨target, he⟩ := hlink
        rw [advanceFits_link he, advanceFits_link (h.link.mpr he)]
      · have hlink' : ∀ target, d.entryAt (name :: l) ≠ some (.link target) := not_exists.mp hlink
        rw [advanceFits_held hlink',
          advanceFits_held fun target he => hlink' target (h.link.mp he), ih (name :: l)]

theorem followFits_of_keeps (h : Keeps d d') {slash : Bool}
    (hfollow : d.follow .looking links l steps = .ok (.occupied m slash)) :
    d'.followFits links l steps = d.followFits links l steps := by
  fun_induction follow d .looking links l steps with
  | case1 links l steps m' slash' hadvance =>
    have hcarries := advance_of_keeps h .looking l steps
    rw [hadvance] at hcarries
    rw [followFits_arrived hcarries, followFits_arrived hadvance, advanceFits_of_keeps h]
  | case2 => cases hfollow
  | case3 => cases hfollow
  | case4 => cases hfollow
  | case5 l steps dir target rest hadvance links ih =>
    have hcarries := advance_of_keeps h .looking l steps
    rw [hadvance] at hcarries
    rw [followFits_atLink hcarries, followFits_atLink hadvance, advanceFits_of_keeps h, ih hfollow]

/-- A path that leads somewhere resolves to what it did before, or still to nothing. -/
theorem canonical?_of_keeps (h : Keeps d d') (hp : d.locate? p = some l) :
    d'.canonical? p = d.canonical? p := by
  obtain ⟨-, slash, hfollow, -⟩ := locate?_eq_some.mp hp
  rw [canonical?, canonical?, locate?_of_keeps h hp, hp, h.workingDir,
    followFits_of_keeps h hfollow]

/-! ### Two paths -/

theorem sameFile_iff :
    d.sameFile p q = true ↔ ∃ l, d.canonical? p = some l ∧ d.canonical? q = some l := by
  rw [sameFile]
  cases d.canonical? p with
  | none => simp
  | some l =>
    cases d.canonical? q with
    | none => simp
    | some m => simp [eq_comm]

/-- Paths that resolve to the same place lead there. -/
theorem locate?_of_sameFile (h : d.sameFile p q = true) :
    ∃ l, d.locate? p = some l ∧ d.locate? q = some l := by
  obtain ⟨l, hp, hq⟩ := sameFile_iff.mp h
  exact ⟨l, (canonical?_eq_some.mp hp).2, (canonical?_eq_some.mp hq).2⟩

theorem sameFile_of_keeps (h : Keeps d d') (hp : d.locate? p = some l) (hq : d.locate? q = some m) :
    d'.sameFile p q = d.sameFile p q := by
  rw [sameFile, sameFile, canonical?_of_keeps h hp, canonical?_of_keeps h hq]

end Disk

end RulePack
