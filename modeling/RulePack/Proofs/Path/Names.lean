import RulePack.Disk.Walk

/-!
# Paths that end in a name

* `Path.IsName` — the segments that name an entry of a directory;
* `Path.steps_child` — the steps to `p.child name` are those of `p` without a slash at its end, and
  one step down;
* `Path.start_child` — both paths start at the same place.
-/

namespace RulePack

namespace Path

/-- Does the segment name an entry, whatever the directory? -/
def IsName (s : Segment) : Prop :=
  s ≠ [] ∧ slash ∉ s ∧ s ≠ here ∧ s ≠ above ∧ s.length ≤ Disk.nameLimit

instance (s : Segment) : Decidable (IsName s) := inferInstanceAs (Decidable (_ ∧ _))

/-! ### Segments -/

theorem splitSlashes_ne_nil (bs : List UInt8) : splitSlashes bs ≠ [] := by
  induction bs with
  | nil => exact List.cons_ne_nil _ _
  | cons b rest ih =>
    rw [splitSlashes]
    split
    · exact List.cons_ne_nil _ _
    · cases h : splitSlashes rest with
      | nil => exact absurd h ih
      | cons s more => exact List.cons_ne_nil _ _

theorem splitSlashes_append_slash (front behind : List UInt8) :
    splitSlashes (front ++ slash :: behind) = splitSlashes front ++ splitSlashes behind := by
  induction front with
  | nil => rfl
  | cons b rest ih =>
    rw [List.cons_append, splitSlashes, splitSlashes, ih]
    split
    · rw [List.cons_append]
    · cases h : splitSlashes rest with
      | nil => exact absurd h (splitSlashes_ne_nil rest)
      | cons s more => rfl

theorem splitSlashes_of_not_mem {s : Segment} (h : slash ∉ s) : splitSlashes s = [s] := by
  induction s with
  | nil => rfl
  | cons b rest ih =>
    rw [List.mem_cons, not_or] at h
    rw [splitSlashes, if_neg (fun hb => h.1 hb.symm), ih h.2]

theorem stepsOf_append (ss ts : List Segment) : stepsOf (ss ++ ts) = stepsOf ss ++ stepsOf ts := by
  rw [stepsOf, List.filter_append, List.map_append, stepsOf, stepsOf]

theorem stepsOf_name {s : Segment} (h : IsName s) : stepsOf [s] = [.down s] := by
  obtain ⟨hne, -, hhere, habove, -⟩ := h
  simp [stepsOf, hne, Step.ofSegment, hhere, habove]

theorem endsInSlash_append {front name : List UInt8} (h : IsName name) :
    Path.endsInSlash ⟨front ++ name⟩ = false := by
  obtain ⟨hne, hslash, -⟩ := h
  obtain ⟨init, last, rfl⟩ := (List.eq_nil_or_concat name).resolve_left hne
  rw [List.concat_eq_append, List.mem_append, List.mem_singleton, not_or] at hslash
  rw [endsInSlash, List.concat_eq_append, ← List.append_assoc, List.getLast?_concat]
  simpa using fun h => hslash.2 h.symm

/-! ### A name behind a path -/

variable {p : Path} {name : String}

theorem isAbsolute_ofText (h : IsName (Text.bytes name)) : (ofText name).isAbsolute = false := by
  obtain ⟨hne, hslash, -⟩ := h
  show ((Text.bytes name).head? == some slash) = false
  cases hname : Text.bytes name with
  | nil => exact absurd hname hne
  | cons b rest =>
    rw [hname, List.mem_cons, not_or] at hslash
    simpa using fun h => hslash.1 h.symm

/-- The bytes in front of the name end in a slash, if there are any. -/
theorem bytes_child (h : IsName (Text.bytes name)) :
    (p.child name).bytes = if p.isEmpty || p.endsInSlash then p.bytes ++ Text.bytes name
      else p.bytes ++ slash :: Text.bytes name := by
  rw [child, join, isAbsolute_ofText h]
  split
  · rename_i hfalse
    cases hfalse
  · split <;> rfl

theorem isEmpty_child (h : IsName (Text.bytes name)) : (p.child name).isEmpty = false := by
  rw [isEmpty, bytes_child h]
  split <;> simp [h.1]

theorem stepsOf_segments_child (h : IsName (Text.bytes name)) :
    stepsOf (p.child name).segments = stepsOf p.segments ++ [.down (Text.bytes name)] := by
  have hsplit := splitSlashes_of_not_mem h.2.1
  rw [segments, segments, bytes_child h]
  cases hempty : p.isEmpty with
  | true =>
    have hbytes : p.bytes = [] := List.isEmpty_iff.mp hempty
    rw [Bool.true_or, if_pos rfl, hbytes, List.nil_append, hsplit, stepsOf_name h]
    rfl
  | false =>
    cases hends : p.endsInSlash with
    | true =>
      obtain ⟨front, hfront⟩ := List.getLast?_eq_some_iff.mp (beq_iff_eq.mp hends)
      have hnil : stepsOf (splitSlashes []) = [] := rfl
      rw [Bool.false_or, if_pos rfl, hfront, List.append_assoc, List.singleton_append,
        splitSlashes_append_slash, splitSlashes_append_slash, stepsOf_append, stepsOf_append, hsplit,
        stepsOf_name h, hnil, List.append_nil]
    | false =>
      rw [Bool.false_or, if_neg Bool.false_ne_true, splitSlashes_append_slash, stepsOf_append,
        hsplit, stepsOf_name h]

theorem steps_child (h : IsName (Text.bytes name)) :
    (p.child name).steps = stepsOf p.segments ++ [.down (Text.bytes name)] := by
  have hends : (p.child name).endsInSlash = false := by
    have hfront : ∃ front, (p.child name).bytes = front ++ Text.bytes name := by
      rw [bytes_child h]
      split
      · exact ⟨_, rfl⟩
      · exact ⟨p.bytes ++ [slash], by rw [List.append_assoc, List.singleton_append]⟩
    obtain ⟨front, hfront⟩ := hfront
    show Path.endsInSlash ⟨(p.child name).bytes⟩ = false
    rw [hfront]
    exact endsInSlash_append h
  rw [steps, stepsOf_segments_child h, hends, if_neg Bool.false_ne_true, List.append_nil]

theorem start_child (h : IsName (Text.bytes name)) (base : Location) :
    (p.child name).start base = p.start base := by
  have habsolute : (p.child name).isAbsolute = p.isAbsolute := by
    rw [isAbsolute, isAbsolute, bytes_child h]
    cases hbytes : p.bytes with
    | nil =>
      rw [show p.isEmpty = true from List.isEmpty_iff.mpr hbytes, Bool.true_or, if_pos rfl]
      exact isAbsolute_ofText h
    | cons b rest => split <;> rfl
  rw [start, start, habsolute]

end Path

end RulePack
