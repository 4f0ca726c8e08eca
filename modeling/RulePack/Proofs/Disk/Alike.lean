import Mathlib.Data.List.Infix
import RulePack.Proofs.Disk.Children
import RulePack.Proofs.Path.Absolute

/-!
# Paths that lead alike

* `Disk.follow_stay`, `Disk.follow_spoken` — silent segments make no difference to a walk that goes
  on;
* `Disk.Stands`, `Disk.Stands.follow` — the working directory is reached from the root by its names;
* `Disk.LeadsAlike`, `Disk.LeadsAlike.child` — paths behind which every walk goes on alike;
* `Disk.leadsAlike_absolute?` — a path leads like the absolute path that is made of it;
* `Disk.find_child_of_leadsAlike` — what is found below such paths, unless one of them is too long.
-/

namespace RulePack

namespace Disk

variable {d : Disk} {purpose : Purpose} {links : Nat} {l : Location} {ss ts : List Step}
  {p q : Path}

/-! ### Silent segments -/

/-- Staying in a directory makes no difference to a walk that goes on. -/
theorem advance_stay (hnil : ts ≠ []) (hslash : ts ≠ [.slash]) :
    d.advance purpose l (.stay :: ts) = d.advance purpose l ts := by
  cases hdir : d.isDirectoryAt l with
  | true => rw [advance, if_pos hdir]
  | false =>
    obtain ⟨step, rest, rfl⟩ := List.exists_cons_of_ne_nil hnil
    rw [advance_outside hdir (by simp), advance_outside hdir hslash]

theorem follow_stay (hnil : ts ≠ []) (hslash : ts ≠ [.slash]) :
    d.follow purpose links l (ss ++ .stay :: ts) = d.follow purpose links l (ss ++ ts) := by
  have hstay := fun l ss => advance_append d purpose l ss (List.cons_ne_nil Step.stay ts) (by simp)
  have hgo := fun l ss => advance_append d purpose l ss hnil hslash
  -- along the walk before the step, through every link that it meets
  fun_induction follow d .looking links l ss with
  | case1 links l steps m slash hadvance =>
    refine follow_congr ?_ links
    rw [hstay, hgo, hadvance]
    exact advance_stay hnil hslash
  | case2 links l steps dir name slash hadvance =>
    refine follow_congr ?_ links
    rw [hstay, hgo, hadvance]
  | case3 links l steps fault hadvance =>
    refine follow_congr ?_ links
    rw [hstay, hgo, hadvance]
  | case4 l steps dir target rest hadvance =>
    have hlink := hstay l steps
    have hlink' := hgo l steps
    rw [hadvance] at hlink hlink'
    rw [follow_atLink_zero hlink, follow_atLink_zero hlink']
  | case5 l steps dir target rest hadvance left ih =>
    have hlink := hstay l steps
    have hlink' := hgo l steps
    rw [hadvance] at hlink hlink'
    rw [follow_atLink_succ hlink, follow_atLink_succ hlink', ← List.append_assoc, ih,
      List.append_assoc]

/-- Silent segments make no difference to a walk that goes on. -/
theorem follow_spoken (hnil : ts ≠ []) (hslash : ts ≠ [.slash]) (ss : List Step)
    (segments : List Segment) : d.follow purpose links l (ss ++ (Path.stepsOf segments ++ ts))
      = d.follow purpose links l
        (ss ++ (Path.stepsOf (segments.filter fun s => !Path.isSilent s) ++ ts)) := by
  induction segments generalizing ss with
  | nil => rfl
  | cons s rest ih =>
    have hcons : ∀ more, Path.stepsOf (s :: more) = Path.stepsOf [s] ++ Path.stepsOf more :=
      fun more => Path.stepsOf_append [s] more
    have hbehind : Path.stepsOf rest ++ ts ≠ [] := fun h => hnil (List.append_eq_nil_iff.mp h).2
    have hbehind' := append_ne_slash hnil hslash (Path.stepsOf rest)
    cases hs : Path.isSilent s with
    | false =>
      have hmore := ih (ss ++ Path.stepsOf [s])
      rw [List.filter_cons_of_pos (by simp [hs]), hcons rest, hcons (rest.filter _)]
      simpa only [List.append_assoc] using hmore
    | true =>
      rw [List.filter_cons_of_neg (by simp [hs]), hcons, List.append_assoc, ← ih]
      rw [Path.isSilent, Bool.or_eq_true, beq_iff_eq, beq_iff_eq] at hs
      rcases hs with rfl | rfl
      · rfl
      · exact follow_stay hbehind hbehind'

/-- A walk that goes on behind a path takes the steps of its names and upward steps. -/
theorem follow_spokenSegments (hnil : ts ≠ []) (hslash : ts ≠ [.slash]) (p : Path) :
    d.follow purpose links l (Path.stepsOf p.segments ++ ts)
      = d.follow purpose links l (Path.stepsOf p.spokenSegments ++ ts) :=
  follow_spoken hnil hslash [] p.segments

/-! ### The working directory -/

/-- The working directory is there, and can be named. -/
structure Stands (d : Disk) : Prop where
  name : ∀ s ∈ d.workingDir, Path.IsName s ∧ 0 ∉ s
  directory : ∀ l, l <:+ d.workingDir → d.isDirectoryAt l = true

theorem stands_iff : d.Stands ↔ (∀ s ∈ d.workingDir, Path.IsName s ∧ 0 ∉ s)
    ∧ ∀ l ∈ d.workingDir.tails, d.isDirectoryAt l = true := by
  simp only [List.mem_tails]
  exact ⟨fun h => ⟨h.name, h.directory⟩, fun h => ⟨h.1, h.2⟩⟩

instance (d : Disk) : Decidable d.Stands := decidable_of_iff _ stands_iff.symm

theorem Stands.isSpoken (h : d.Stands) : ∀ s ∈ d.workingDir, Path.IsSpoken s :=
  fun s hs => (h.name s hs).1.isSpoken

/-- A working directory that can be named is there. -/
theorem Stands.isReached (h : d.Stands) : d.isReached d.workingDir = true := by
  have hreached : ∀ l, l <:+ d.workingDir → d.isReached l = true := by
    intro l
    induction l with
    | nil => exact fun _ => rfl
    | cons name l ih =>
      intro hl
      rw [Disk.isReached, h.directory _ hl, ih ((List.suffix_cons name l).trans hl)]
      rfl
  exact hreached _ (List.suffix_refl _)

/-- The names of directories lead to them. -/
theorem advance_down (hname : ∀ s ∈ l, Path.IsName s)
    (hdir : ∀ m, m <:+ l → d.isDirectoryAt m = true) (hslash : ts ≠ [.slash]) :
    d.advance purpose [] (Path.stepsOf l.reverse ++ ts) = d.advance purpose l ts := by
  induction l generalizing ts with
  | nil => rfl
  | cons s rest ih =>
    rw [List.forall_mem_cons] at hname
    have hrest : rest <:+ s :: rest := List.suffix_cons s rest
    have hheld := isDirectoryAt_iff.mp (hdir (s :: rest) (List.suffix_refl _))
    rw [List.reverse_cons, Path.stepsOf_append, Path.stepsOf_name hname.1, List.append_assoc,
      List.singleton_append, ih hname.2 (fun m hm => hdir m (hm.trans hrest)) (by simp)]
    exact advance_down_held (hdir rest hrest) (Nat.not_lt.mpr hname.1.2.2.2.2)
      (fun hw => hslash hw.2) hheld (fun _ => Entry.noConfusion)

theorem Stands.follow (h : d.Stands) (hslash : ts ≠ [.slash]) :
    d.follow purpose links [] (Path.stepsOf d.workingDir.reverse ++ ts)
      = d.follow purpose links d.workingDir ts :=
  follow_congr (advance_down (fun s hs => (h.name s hs).1) h.directory hslash) links

/-! ### Paths that lead alike -/

/-- Every walk goes on alike behind either path. -/
structure LeadsAlike (d : Disk) (p q : Path) : Prop where
  zero : 0 ∈ p.bytes ↔ 0 ∈ q.bytes
  follow : ∀ {purpose links ts}, ts ≠ [] → ts ≠ [.slash] →
    d.follow purpose links (p.start d.workingDir) (Path.stepsOf p.segments ++ ts)
      = d.follow purpose links (q.start d.workingDir) (Path.stepsOf q.segments ++ ts)

section
variable {name : String} (hname : Path.IsName (Text.bytes name))
include hname

theorem zero_mem_child (p : Path) :
    0 ∈ (p.child name).bytes ↔ 0 ∈ p.bytes ∨ 0 ∈ Text.bytes name := by
  rw [Path.bytes_child hname]
  split
  · rw [List.mem_append]
  · rw [List.mem_append, List.mem_cons]
    simp [Path.slash]

/-- Names behind paths that lead alike lead alike. -/
theorem LeadsAlike.child (h : d.LeadsAlike p q) : d.LeadsAlike (p.child name) (q.child name) where
  zero := by rw [zero_mem_child hname, zero_mem_child hname, h.zero]
  follow := by
    intro purpose links ts _ _
    rw [Path.start_child hname, Path.start_child hname, Path.stepsOf_segments_child hname,
      Path.stepsOf_segments_child hname, List.append_assoc, List.append_assoc]
    exact h.follow (by simp) (by simp)

/-- The same is found under a name behind either path, unless one of them is too long. -/
theorem find_child_of_leadsAlike (h : d.LeadsAlike p q)
    (hp : (p.child name).bytes.length ≤ Path.lengthLimit)
    (hq : (q.child name).bytes.length ≤ Path.lengthLimit) :
    d.find (p.child name) = d.find (q.child name) := by
  have hrefusal : ∀ {p : Path}, (p.child name).bytes.length ≤ Path.lengthLimit →
      (p.child name).refusal? = if 0 ∈ (p.child name).bytes then some .zeroInPath else none := by
    intro p hp
    rw [Path.refusal?, Path.isEmpty_child hname, if_neg Bool.false_ne_true,
      if_neg (Nat.not_lt.mpr hp)]
  have hfollow : d.follow .looking linkLimit _ _ = _ :=
    h.follow (List.cons_ne_nil (Step.down (Text.bytes name)) []) (by simp)
  have hwalk : d.walk .looking (p.child name) = d.walk .looking (q.child name) := by
    rw [walk, walk, hrefusal hp, hrefusal hq, Path.start_child hname, Path.start_child hname,
      Path.steps_child hname, Path.steps_child hname, hfollow]
    simp only [(h.child hname).zero]
  rw [find, find, hwalk]

end

/-- A path leads like the absolute path that is made of it. -/
theorem leadsAlike_absolute? (h : d.Stands) (hp : p.isEmpty = false)
    (hq : Path.absolute? d.workingPath p = some q) : d.LeadsAlike p q := by
  obtain ⟨hbase, hspokenBase⟩ := Path.components_eq_iff.mp (Location.components_path h.isSpoken)
  obtain ⟨habsolute, hspoken⟩ :=
    Path.components_eq_iff.mp (Path.components_of_absolute? hbase hp hq)
  rw [hspokenBase] at hspoken
  constructor
  · have hbytes : ∀ {p : Path}, 0 ∈ p.bytes ↔ ∃ s ∈ p.spokenSegments, 0 ∈ s :=
      Path.mem_bytes_iff (by decide) (by decide)
    rw [hbytes, hbytes, hspoken]
    constructor
    · intro hzero
      obtain ⟨s, hs, hzero⟩ := hzero
      exact ⟨s, List.mem_append_right _ hs, hzero⟩
    · intro hzero
      obtain ⟨s, hs, hzero⟩ := hzero
      rcases List.mem_append.mp hs with hs | hs
      · split at hs
        · cases hs
        · exact absurd hzero (h.name s (List.mem_reverse.mp hs)).2
      · exact ⟨s, hs, hzero⟩
  · intro purpose links ts hnil hslash
    rw [follow_spokenSegments hnil hslash p, follow_spokenSegments hnil hslash q, hspoken,
      Path.start, Path.start, habsolute, if_pos rfl]
    cases p.isAbsolute with
    | true => rfl
    | false =>
      have hbehind := append_ne_slash hnil hslash (Path.stepsOf p.spokenSegments)
      rw [if_neg Bool.false_ne_true, if_neg Bool.false_ne_true, Path.stepsOf_append,
        List.append_assoc, h.follow hbehind]

end Disk

end RulePack
