import RulePack.Disk.Change

/-!
# Walks of several steps

* `Disk.advance_append`, `Disk.follow_append`, `Disk.follow_of_append`, `Disk.follow_concat_down` — a
  walk with more steps behind it;
* `Disk.follow_concat_slash` — a walk with a slash behind it;
* `Disk.find_eq_ok`, `Disk.locate?_eq_some`, `Disk.readBytes_eq_ok`, `Disk.write_eq_ok` — what is
  found at the end of a walk, and what is written there.
-/

namespace RulePack.Disk

/-- No link has that name. -/
def Unlinked (d : Disk) (name : Segment) : Prop :=
  ∀ m target, d.entryAt (name :: m) ≠ some (.link target)

/-- Where a walk ends that goes down to a name in a directory. -/
def spotBelow (d : Disk) (m : Location) (name : Segment) : Spot :=
  match d.entryAt (name :: m) with
  | none => .vacant m name false
  | some _ => .occupied (name :: m) false

variable {d d' : Disk} {purpose : Purpose} {links : Nat} {l m : Location} {ss ts : List Step}
  {p : Path}

/-! ### A walk with more steps behind it -/

theorem append_ne_slash (hnil : ts ≠ []) (hslash : ts ≠ [.slash]) (ss : List Step) :
    ss ++ ts ≠ [.slash] := by
  intro h
  rcases List.append_eq_singleton_iff.mp h with ⟨-, h⟩ | ⟨-, h⟩
  · exact hslash h
  · exact hnil h

/-- More steps than a slash are taken from where the steps before them lead. -/
theorem advance_append (d : Disk) (purpose : Purpose) (l : Location) (ss : List Step)
    (hnil : ts ≠ []) (hslash : ts ≠ [.slash]) : d.advance purpose l (ss ++ ts)
      = match d.advance .looking l ss with
        | .arrived m _ => d.advance purpose m ts
        | .vacant _ _ _ => .stuck .notFound
        | .atLink dir target rest => .atLink dir target (rest ++ ts)
        | .stuck fault => .stuck fault := by
  have hrest : ∀ rest : List Step, rest ++ ts ≠ [] := fun rest h =>
    hnil (List.append_eq_nil_iff.mp h).2
  have hslashes := append_ne_slash hnil hslash
  fun_induction advance d .looking l ss with
  | case1 l => rfl
  | case2 l =>
    cases hdir : d.isDirectoryAt l with
    | true => exact advance_slash hdir hnil
    | false =>
      obtain ⟨step, rest, rfl⟩ := List.exists_cons_of_ne_nil hnil
      show d.advance purpose l (.slash :: step :: rest) = d.advance purpose l (step :: rest)
      rw [advance_outside hdir hslash]
      exact advance_outside hdir (by simp)
  | case3 l rest hdir _ ih => rwa [List.cons_append, advance, if_pos hdir]
  | case4 l rest hdir _ ih => rwa [List.cons_append, advance_slash hdir (hrest rest)]
  | case5 l rest hdir _ ih => rwa [List.cons_append, advance, if_pos hdir]
  | case6 l rest hdir name hw => exact absurd hw.1 (by simp)
  | case7 l rest hdir name _ hlong =>
    rw [List.cons_append, advance.eq_def]
    simp only [hdir, if_true, hslashes, and_false, if_false, hlong]
  | case8 l rest hdir name _ hname target he _ =>
    rw [List.cons_append, advance_down_link hdir hname (fun h => hslashes rest h.2) he]
  | case9 l rest hdir name _ hname e hlink he _ ih =>
    rwa [List.cons_append, advance_down_held hdir hname (fun h => hslashes rest h.2) he hlink]
  | case10 l hdir name hname he =>
    exact advance_down_missing hdir hname he hnil hslash
  | case11 l hdir name hname he =>
    exact advance_down_missing hdir hname he (hrest [.slash]) (hslashes [.slash])
  | case12 l rest hdir name _ hname he =>
    exact advance_down_missing hdir hname he (hrest rest) (hslashes rest)
  | case13 l step rest _ hdir =>
    exact advance_outside (by simpa using hdir) (hslashes (step :: rest))

/-- A slash behind a path asks for a directory. -/
theorem advance_concat_slash (d : Disk) (l : Location) (ss : List Step) :
    d.advance .looking l (ss ++ [.slash])
    = match d.advance .looking l ss with
      | .arrived m slash =>
        if slash = true ∧ d.isDirectoryAt m = false then .stuck .notADirectory else .arrived m true
      | .vacant dir name slash => if slash then .stuck .notFound else .vacant dir name true
      | .atLink dir target rest => .atLink dir target (rest ++ [.slash])
      | .stuck fault => .stuck fault := by
  have hrest : ∀ rest : List Step, rest ++ [.slash] ≠ [] := fun rest => by simp
  fun_induction advance d .looking l ss with
  | case1 l => rfl
  | case2 l =>
    show d.advance .looking l (.slash :: [.slash]) = _
    cases hdir : d.isDirectoryAt l with
    | true => simp [hdir, advance]
    | false =>
      have hlong : Step.slash :: [.slash] ≠ [.slash] := by simp
      simpa [hdir] using advance_outside hdir hlong
  | case3 l rest hdir _ ih => rwa [List.cons_append, advance, if_pos hdir]
  | case4 l rest hdir _ ih => rwa [List.cons_append, advance_slash hdir (hrest rest)]
  | case5 l rest hdir _ ih => rwa [List.cons_append, advance, if_pos hdir]
  | case6 l rest hdir name hw => exact absurd hw.1 (by simp)
  | case7 l rest hdir name _ hlong =>
    rw [List.cons_append, advance.eq_def]
    simp [hdir, hlong]
  | case8 l rest hdir name _ hname target he _ =>
    rw [List.cons_append, advance_down_link hdir hname (by simp) he]
  | case9 l rest hdir name _ hname e hlink he _ ih =>
    rwa [List.cons_append, advance_down_held hdir hname (by simp) he hlink]
  | case10 l hdir name hname he =>
    rw [List.singleton_append, advance.eq_def]
    simp [hdir, hname, he]
  | case11 l hdir name hname he =>
    exact advance_down_missing hdir hname he (by simp) (by simp)
  | case12 l rest hdir name _ hname he =>
    exact advance_down_missing hdir hname he (hrest rest) (by simpa)
  | case13 l step rest _ hdir =>
    exact advance_outside (by simpa using hdir) (by simp)

theorem follow_congr (h : d.advance purpose l ss = d.advance purpose m ts) (links : Nat) :
    d.follow purpose links l ss = d.follow purpose links m ts := by
  rw [follow.eq_def, follow.eq_def d purpose links m ts]
  simp only [h]

/-- A walk goes on from where its first steps lead, with the links that are left then. -/
theorem follow_append (purpose : Purpose) (hnil : ts ≠ []) (hslash : ts ≠ [.slash]) {slash : Bool}
    (h : d.follow .looking links l ss = .ok (.occupied m slash)) :
    ∃ left, d.follow purpose links l (ss ++ ts) = d.follow purpose left m ts := by
  have happend := fun l ss => advance_append d purpose l ss hnil hslash
  fun_induction follow d .looking links l ss with
  | case1 links l steps m' slash' hadvance =>
    cases h
    refine ⟨links, follow_congr ?_ links⟩
    rw [happend, hadvance]
  | case2 => cases h
  | case3 => cases h
  | case4 => cases h
  | case5 l steps dir target rest hadvance left ih =>
    have hlink := happend l steps
    rw [hadvance] at hlink
    rw [follow_atLink_succ hlink, ← List.append_assoc]
    exact ih h

/-- A walk that gets somewhere got somewhere with its first steps. -/
theorem follow_of_append (purpose : Purpose) (hnil : ts ≠ []) (hslash : ts ≠ [.slash]) {spot : Spot}
    (h : d.follow purpose links l (ss ++ ts) = .ok spot) :
    ∃ m slash left, d.follow .looking links l ss = .ok (.occupied m slash)
      ∧ d.follow purpose left m ts = .ok spot := by
  have happend := fun l ss => advance_append d purpose l ss hnil hslash
  fun_induction follow d .looking links l ss with
  | case1 links l steps m slash hadvance =>
    have hon : d.advance purpose l (steps ++ ts) = d.advance purpose m ts := by
      rw [happend, hadvance]
    exact ⟨m, slash, links, rfl, by rw [← h, follow_congr hon]⟩
  | case2 links l steps dir name slash hadvance =>
    have hstuck := happend l steps
    rw [hadvance] at hstuck
    rw [follow_stuck hstuck] at h
    cases h
  | case3 links l steps fault hadvance =>
    have hstuck := happend l steps
    rw [hadvance] at hstuck
    rw [follow_stuck hstuck] at h
    cases h
  | case4 l steps dir target rest hadvance =>
    have hlink := happend l steps
    rw [hadvance] at hlink
    rw [follow_atLink_zero hlink] at h
    cases h
  | case5 l steps dir target rest hadvance left ih =>
    have hlink := happend l steps
    rw [hadvance] at hlink
    rw [follow_atLink_succ hlink, ← List.append_assoc] at h
    exact ih h

/-- A name that no link has is one step further than the path in front of it. -/
theorem follow_concat_down {name : Segment} (hname : name.length ≤ nameLimit)
    (hlink : d.Unlinked name) : d.follow purpose links l (ss ++ [.down name])
    = match d.follow .looking links l ss with
      | .ok (.occupied m _) =>
        if d.isDirectoryAt m then .ok (d.spotBelow m name) else .error .notADirectory
      | .ok (.vacant _ _ _) => .error .notFound
      | .error fault => .error fault := by
  have hdown : [Step.down name] ≠ [.slash] := by simp
  have happend := fun l ss =>
    advance_append d purpose l ss (List.cons_ne_nil (Step.down name) []) hdown
  fun_induction follow d .looking links l ss with
  | case1 links l steps m slash h =>
    have hadvance : d.advance purpose l (steps ++ [.down name])
        = d.advance purpose m [.down name] := by rw [happend, h]
    show d.follow purpose links l (steps ++ [.down name])
      = if d.isDirectoryAt m then .ok (d.spotBelow m name) else .error .notADirectory
    cases hdir : d.isDirectoryAt m with
    | false =>
      rw [advance_outside hdir (by simp)] at hadvance
      exact follow_stuck hadvance links
    | true =>
      have hshort := Nat.not_lt.mpr hname
      rw [if_pos rfl, spotBelow]
      cases he : d.entryAt (name :: m) with
      | none =>
        rw [advance_down_vacant hdir hshort he] at hadvance
        exact follow_vacant hadvance links
      | some e =>
        rw [advance_down_held hdir hshort (by simp) he (fun t ht => hlink m t (ht ▸ he))] at hadvance
        exact follow_arrived hadvance links
  | case2 links l steps dir name' slash h =>
    have hadvance := happend l steps
    rw [h] at hadvance
    exact follow_stuck hadvance links
  | case3 links l steps fault h =>
    have hadvance := happend l steps
    rw [h] at hadvance
    exact follow_stuck hadvance links
  | case4 l steps dir target rest h =>
    have hadvance := happend l steps
    rw [h] at hadvance
    exact follow_atLink_zero hadvance
  | case5 l steps dir target rest h links ih =>
    have hadvance := happend l steps
    rw [h] at hadvance
    rw [follow_atLink_succ hadvance, ← List.append_assoc]
    exact ih

/-- A slash behind a path does not lead elsewhere. -/
theorem follow_concat_slash : d.follow .looking links l (ss ++ [.slash])
    = match d.follow .looking links l ss with
      | .ok (.occupied m slash) =>
        if slash = true ∧ d.isDirectoryAt m = false then .error .notADirectory
        else .ok (.occupied m true)
      | .ok (.vacant dir name slash) =>
        if slash then .error .notFound else .ok (.vacant dir name true)
      | .error fault => .error fault := by
  have happend := advance_concat_slash d
  fun_induction follow d .looking links l ss with
  | case1 links l steps m slash h =>
    have hadvance := happend l steps
    simp only [h] at hadvance ⊢
    split at hadvance
    · rename_i hfile
      rw [if_pos hfile]
      exact follow_stuck hadvance links
    · rename_i hdir
      rw [if_neg hdir]
      exact follow_arrived hadvance links
  | case2 links l steps dir name slash h =>
    have hadvance := happend l steps
    simp only [h] at hadvance ⊢
    split at hadvance
    · rename_i hslash
      rw [if_pos hslash]
      exact follow_stuck hadvance links
    · rename_i hslash
      rw [if_neg hslash]
      exact follow_vacant hadvance links
  | case3 links l steps fault h =>
    have hadvance := happend l steps
    rw [h] at hadvance
    exact follow_stuck hadvance links
  | case4 l steps dir target rest h =>
    have hadvance := happend l steps
    rw [h] at hadvance
    exact follow_atLink_zero hadvance
  | case5 l steps dir target rest h links ih =>
    have hadvance := happend l steps
    rw [h] at hadvance
    rw [follow_atLink_succ hadvance, ← List.append_assoc]
    exact ih

/-! ### What is found -/

theorem walk_eq_ok {spot : Spot} : d.walk purpose p = .ok spot ↔ p.refusal? = none
    ∧ d.follow purpose linkLimit (p.start d.workingDir) p.steps = .ok spot := by
  rw [walk]
  cases p.refusal? with
  | none => simp
  | some fault => simp

theorem settle_eq_ok {spot : Spot} : d.settle spot = .ok l
    ↔ ∃ slash, spot = .occupied l slash ∧ (slash = true → d.isDirectoryAt l = true) := by
  cases spot with
  | vacant dir name slash => simp [settle]
  | occupied m slash =>
    rw [settle]
    cases slash with
    | false => simp
    | true =>
      cases hdir : d.isDirectoryAt m with
      | false =>
        simp only [Bool.not_false, Bool.and_self, if_true, reduceCtorEq, false_iff]
        intro h
        obtain ⟨slash, hspot, hdir'⟩ := h
        cases hspot
        rw [hdir' rfl] at hdir
        cases hdir
      | true =>
        simp only [Bool.not_true, Bool.and_false, Bool.false_eq_true, if_false, Except.ok.injEq]
        constructor
        · intro h
          exact ⟨true, by rw [h], fun _ => h ▸ hdir⟩
        · intro h
          obtain ⟨slash, hspot, -⟩ := h
          cases hspot
          rfl

theorem find_eq_ok : d.find p = .ok l ↔ p.refusal? = none
    ∧ ∃ slash, d.follow .looking linkLimit (p.start d.workingDir) p.steps
        = .ok (.occupied l slash) ∧ (slash = true → d.isDirectoryAt l = true) := by
  rw [find, walk]
  cases p.refusal? with
  | some fault => simp
  | none =>
    cases d.follow .looking linkLimit (p.start d.workingDir) p.steps with
    | error fault => simp
    | ok spot => simp [settle_eq_ok]

/-- A location is found name by name just as it is found by its path, but for the limit on the
length of paths. -/
theorem locate?_eq_some : d.locate? p = some l ↔ (p.isEmpty = false ∧ 0 ∉ p.bytes)
    ∧ ∃ slash, d.follow .looking linkLimit (p.start d.workingDir) p.steps
        = .ok (.occupied l slash) ∧ (slash = true → d.isDirectoryAt l = true) := by
  rw [locate?]
  split
  · rename_i hrefused
    constructor
    · intro h
      cases h
    · intro h
      obtain ⟨⟨hempty, hzero⟩, -⟩ := h
      simp [hempty, hzero] at hrefused
  · rename_i hrefused
    have hpath : p.isEmpty = false ∧ 0 ∉ p.bytes := by simpa [not_or] using hrefused
    cases d.follow .looking linkLimit (p.start d.workingDir) p.steps with
    | error fault => simp
    | ok spot => simp [toOption_eq_some, settle_eq_ok, hpath.1, hpath.2]

theorem readBytes_eq_ok {bytes : List UInt8} : d.readBytes p = .ok bytes
    ↔ ∃ l, d.find p = .ok l ∧ d.entryAt l = some (.file bytes) := by
  rw [readBytes]
  cases d.find p with
  | error fault => simp
  | ok l =>
    simp only [Except.ok.injEq, exists_eq_left']
    split
    · rename_i he
      simp [he]
    · rename_i he
      simpa using he bytes

/-- The paths that lead to files are those whose bytes can be read. -/
theorem isFile_iff : d.isFile p = true ↔ ∃ bytes, d.readBytes p = .ok bytes := by
  simp only [readBytes_eq_ok, isFile, entry?]
  cases d.find p with
  | error fault => simp
  | ok l =>
    simp only [Except.ok.injEq, exists_eq_left']
    split
    · rename_i bytes he
      simp [he]
    · rename_i he
      simpa using he

theorem isFile_congr (h : ∀ bytes, d'.readBytes p = .ok bytes ↔ d.readBytes p = .ok bytes) :
    d'.isFile p = d.isFile p := by
  rw [Bool.eq_iff_iff, isFile_iff, isFile_iff]
  exact exists_congr h

theorem write_eq_ok {bytes : List UInt8} : d.write p bytes = .ok d'
    ↔ ∃ l, d.target p = .ok l ∧ d' = d.put l (.file bytes) := by
  rw [write]
  cases d.target p with
  | error fault => simp
  | ok l => simp [eq_comm]

end RulePack.Disk
