import RulePack.Proofs.Path.Components

/-!
# Paths that are made absolute

* `Path.IsSpoken` — a segment that is written by itself, as a name or an upward step;
* `Path.mem_bytes_iff` — which bytes a path has in its names and upward steps;
* `Path.Rooted` — a path that begins with exactly the slashes of a root;
* `Path.Normal`, `Path.normal_of_absolute?` — how a path looks that has been made absolute;
* `Path.components_of_absolute?` — what a path says that has been made absolute;
* `Path.absolute?_of_normal` — such a path stays as it is when it is made absolute again;
* `Location.components_path` — the absolute path of a location names the location.
-/

namespace RulePack

namespace Path

variable {s : Segment} {ss : List Segment} {p q root next base : Path}

/-! ### Segments by themselves -/

/-- Does the segment stand for a name, of whatever length, or for an upward step? -/
def IsSpoken (s : Segment) : Prop := slash ∉ s ∧ isSilent s = false

theorem IsName.isSpoken (h : IsName s) : IsSpoken s := by
  obtain ⟨hne, hslash, hhere, -⟩ := h
  exact ⟨hslash, by simp [isSilent, hne, hhere]⟩

theorem IsSpoken.ne_nil (h : IsSpoken s) : s ≠ [] := by
  intro hnil
  rw [hnil] at h
  cases h.2

theorem isSpoken_of_mem (h : s ∈ p.spokenSegments) : IsSpoken s := by
  obtain ⟨hmem, hspoken⟩ := List.mem_filter.mp h
  exact ⟨slash_not_mem_of_mem hmem, by simpa using hspoken⟩

theorem IsSpoken.spokenSegments (h : IsSpoken s) : spokenSegments ⟨s⟩ = [s] := by
  rw [Path.spokenSegments, segments, splitSlashes_of_not_mem h.1]
  simp [h.2]

theorem isAbsolute_of_not_mem (h : slash ∉ s) : isAbsolute ⟨s⟩ = false := by
  rw [Bool.eq_false_iff]
  intro habsolute
  rw [isAbsolute, beq_iff_eq] at habsolute
  exact h (List.mem_of_mem_head? habsolute)

theorem isAbsolute_nil : isAbsolute ⟨[]⟩ = false := rfl

/-- The bytes of a path that are neither slashes nor dots are those of its names. -/
theorem mem_bytes_iff {b : UInt8} (hslash : b ≠ slash) (hdot : b ≠ dot) :
    b ∈ p.bytes ↔ ∃ s ∈ p.spokenSegments, b ∈ s := by
  have hsegments : b ∈ p.bytes ↔ ∃ s ∈ p.segments, b ∈ s := by
    rw [segments]
    induction p.bytes with
    | nil => simp [splitSlashes]
    | cons c rest ih =>
      rw [splitSlashes]
      cases hsplit : splitSlashes rest with
      | nil => exact absurd hsplit (splitSlashes_ne_nil rest)
      | cons t more =>
        rw [hsplit] at ih
        by_cases hc : c = slash
        · have hne : b ≠ c := by rwa [hc]
          rw [if_pos hc, List.mem_cons, ih]
          simp [hne]
        · rw [if_neg hc, List.mem_cons, ih]
          simp [or_assoc]
  have hsilent : ∀ s, b ∈ s → isSilent s = false := by
    intro s hb
    have hnil : s ≠ [] := List.ne_nil_of_mem hb
    have hhere : s ≠ here := by
      intro heq
      rw [heq, here, List.mem_singleton] at hb
      exact hdot hb
    simp [isSilent, hnil, hhere]
  rw [hsegments]
  simp only [spokenSegments, List.mem_filter]
  constructor
  · intro h
    obtain ⟨s, hs, hb⟩ := h
    exact ⟨s, ⟨hs, by rw [hsilent s hb]; rfl⟩, hb⟩
  · intro h
    obtain ⟨s, ⟨hs, -⟩, hb⟩ := h
    exact ⟨s, hs, hb⟩

/-! ### Continuing a path segment by segment -/

/-- The path continued by one segment after the other. -/
def extend (p : Path) (ss : List Segment) : Path := ss.foldl (fun q s => q.join ⟨s⟩) p

theorem extend_append (p : Path) (ss ts : List Segment) :
    p.extend (ss ++ ts) = (p.extend ss).extend ts := by
  rw [extend, List.foldl_append, extend, extend]

theorem components_extend (h : ∀ s ∈ ss, IsSpoken s) :
    (p.extend ss).components = (p.isAbsolute, p.spokenSegments ++ ss) := by
  induction ss generalizing p with
  | nil =>
    rw [List.append_nil]
    rfl
  | cons s rest ih =>
    rw [List.forall_mem_cons] at h
    have hrelative := isAbsolute_of_not_mem h.1.1
    have hjoin := ih (p := p.join ⟨s⟩) h.2
    rw [isAbsolute_join hrelative, spokenSegments_join hrelative, h.1.spokenSegments,
      List.append_assoc, List.singleton_append] at hjoin
    exact hjoin

/-- What a path is continued by stands at its end. -/
theorem bytes_join (h : next.isAbsolute = false) :
    ∃ front, (p.join next).bytes = front ++ next.bytes := by
  rw [join, h, if_neg Bool.false_ne_true]
  split
  · exact ⟨p.bytes, rfl⟩
  · exact ⟨p.bytes ++ [slash], by rw [List.append_assoc]; rfl⟩

theorem endsInSlash_join_isSpoken (h : IsSpoken s) : (p.join ⟨s⟩).endsInSlash = false := by
  obtain ⟨front, hfront⟩ := bytes_join (p := p) (isAbsolute_of_not_mem h.1)
  obtain ⟨init, last, rfl⟩ := (List.eq_nil_or_concat s).resolve_left h.ne_nil
  rw [endsInSlash, hfront, List.concat_eq_append, ← List.append_assoc, List.getLast?_concat]
  have hlast : last ≠ slash := by
    rintro rfl
    exact h.1 (by simp)
  simpa using hlast

/-- A slash is added to a path that does not end in one. -/
theorem join_nil (h : p.isEmpty = false) :
    p.join ⟨[]⟩ = if p.endsInSlash then p else ⟨p.bytes ++ [slash]⟩ := by
  rw [join, isAbsolute_nil, if_neg Bool.false_ne_true, h, Bool.false_or, List.append_nil]

theorem endsInSlash_join_nil (h : p.isEmpty = false) : (p.join ⟨[]⟩).endsInSlash = true := by
  rw [join_nil h]
  split
  · assumption
  · rw [endsInSlash, List.getLast?_concat]
    rfl

/-! ### Roots -/

/-- The paths that are roots, as they are written at the front of absolute paths. -/
def IsRoot (root : Path) : Prop := root = ⟨[slash]⟩ ∨ root = ⟨[slash, slash]⟩

theorem isRoot_rootOf (p : Path) : IsRoot p.rootOf := by
  rw [rootOf]
  split
  · exact Or.inr rfl
  · exact Or.inl rfl

/-- The path begins with a root and no further slash. -/
def Rooted (root p : Path) : Prop := ∃ rest, p.bytes = root.bytes ++ rest ∧ rest.head? ≠ some slash

theorem Rooted.refl (root : Path) : Rooted root root := ⟨[], (List.append_nil _).symm, by simp⟩

/-- A path keeps its root when it is continued. -/
theorem Rooted.join (hroot : IsRoot root) (h : Rooted root p) (hnext : next.isAbsolute = false) :
    Rooted root (p.join next) := by
  have hhead : next.bytes.head? ≠ some slash := by
    simpa [isAbsolute] using hnext
  obtain ⟨rest, hp, hrest⟩ := h
  rw [Path.join, hnext, if_neg Bool.false_ne_true, hp]
  cases rest with
  | nil =>
    have hends : p.endsInSlash = true := by
      rw [endsInSlash, hp]
      rcases hroot with rfl | rfl <;> rfl
    rw [hends, Bool.or_true, if_pos rfl]
    exact ⟨next.bytes, by rw [List.append_nil], hhead⟩
  | cons b more =>
    split
    · exact ⟨b :: more ++ next.bytes, List.append_assoc _ _ _, hrest⟩
    · exact ⟨b :: more ++ slash :: next.bytes, List.append_assoc _ _ _, hrest⟩

theorem Rooted.extend (hroot : IsRoot root) (h : Rooted root p) (hss : ∀ s ∈ ss, IsSpoken s) :
    Rooted root (p.extend ss) := by
  induction ss generalizing p with
  | nil => exact h
  | cons s rest ih =>
    rw [List.forall_mem_cons] at hss
    exact ih (h.join hroot (isAbsolute_of_not_mem hss.1.1)) hss.2

/-- The root with which a path begins is the one that it keeps when it is made absolute. -/
theorem Rooted.rootOf (hroot : IsRoot root) (h : Rooted root p) : p.rootOf = root := by
  obtain ⟨rest, hp, hrest⟩ := h
  have hnone : rest.takeWhile (· == slash) = [] := by
    cases rest with
    | nil => rfl
    | cons b more =>
      have hb : b ≠ slash := by simpa using hrest
      rw [List.takeWhile_cons_of_neg (by simpa using hb)]
  rw [Path.rootOf, hp]
  rcases hroot with rfl | rfl
  · rw [List.takeWhile_append_of_pos (by simp), hnone]
    rfl
  · rw [List.takeWhile_append_of_pos (by simp), hnone]
    rfl

theorem spokenSegments_of_isRoot (h : IsRoot root) : root.spokenSegments = [] := by
  rcases h with rfl | rfl <;> rfl

theorem isAbsolute_of_isRoot (h : IsRoot root) : root.isAbsolute = true := by
  rcases h with rfl | rfl <;> rfl

theorem isEmpty_of_isAbsolute (h : p.isAbsolute = true) : p.isEmpty = false := by
  rw [isAbsolute, beq_iff_eq] at h
  rw [isEmpty, List.isEmpty_eq_false_iff]
  exact List.ne_nil_of_mem (List.mem_of_mem_head? h)

/-! ### Making a path absolute -/

/-- The path is a root with names and upward steps behind it. -/
def Straight (p : Path) : Prop :=
  ∃ root ss, IsRoot root ∧ (∀ s ∈ ss, IsSpoken s) ∧ p = root.extend ss

theorem Straight.extend (h : p.Straight) (hss : ∀ s ∈ ss, IsSpoken s) : (p.extend ss).Straight := by
  obtain ⟨root, front, hroot, hfront, rfl⟩ := h
  refine ⟨root, front ++ ss, hroot, fun s hs => ?_, (extend_append root front ss).symm⟩
  exact (List.mem_append.mp hs).elim (hfront s) (hss s)

theorem Straight.isAbsolute (h : p.Straight) : p.isAbsolute = true := by
  obtain ⟨root, ss, hroot, hss, rfl⟩ := h
  exact (components_eq_iff.mp (components_extend hss)).1.trans (isAbsolute_of_isRoot hroot)

/-- The path is a root with names and upward steps behind it, and possibly a slash at its end. -/
def Normal (p : Path) : Prop := p.Straight ∨ ∃ q : Path, q.Straight ∧ p = q.join ⟨[]⟩

/-- Where the absolute path begins: at the root as the path writes it, or at the base. -/
def anchor (base p : Path) : Path := if p.isAbsolute then p.rootOf else base

theorem anchor_of_isAbsolute (h : p.isAbsolute = true) (base : Path) : anchor base p = p.rootOf := by
  rw [anchor, if_pos h]

theorem straight_anchor (hbase : base.Straight) (p : Path) : (anchor base p).Straight := by
  rw [anchor]
  split
  · exact ⟨p.rootOf, [], isRoot_rootOf p, by simp, rfl⟩
  · exact hbase

theorem components_anchor (hbase : base.isAbsolute = true) (p : Path) :
    (anchor base p).components = (true, if p.isAbsolute then [] else base.spokenSegments) := by
  rw [anchor, components_eq_iff]
  have hroot := isRoot_rootOf p
  split
  · exact ⟨isAbsolute_of_isRoot hroot, spokenSegments_of_isRoot hroot⟩
  · exact ⟨hbase, rfl⟩

theorem absolute?_eq (h : p.isEmpty = false) (base : Path) :
    absolute? base p = some (if p.endsInSlash
      then ((anchor base p).extend p.spokenSegments).join ⟨[]⟩
      else (anchor base p).extend p.spokenSegments) := by
  rw [absolute?, h, if_neg Bool.false_ne_true]
  rfl

/-- A path that has been made absolute is written like one. -/
theorem normal_of_absolute? (hbase : base.Straight) (h : p.isEmpty = false)
    (hq : absolute? base p = some q) : q.Normal := by
  rw [absolute?_eq h, Option.some.injEq] at hq
  have hbody := (straight_anchor hbase p).extend fun _ => isSpoken_of_mem (p := p)
  split at hq
  · exact Or.inr ⟨_, hbody, hq.symm⟩
  · rw [← hq]
    exact Or.inl hbody

/-- It says what the path said, after the base if the path was relative. -/
theorem components_of_absolute? (hbase : base.isAbsolute = true) (h : p.isEmpty = false)
    (hq : absolute? base p = some q) : q.components
      = (true, (if p.isAbsolute then [] else base.spokenSegments) ++ p.spokenSegments) := by
  rw [absolute?_eq h, Option.some.injEq] at hq
  obtain ⟨habsolute, hspoken⟩ := components_eq_iff.mp (components_anchor hbase p)
  have hbody := components_extend (p := anchor base p) fun _ => isSpoken_of_mem (p := p)
  rw [habsolute, hspoken] at hbody
  split at hq
  · obtain ⟨habsolute', hspoken'⟩ := components_eq_iff.mp hbody
    rw [← hq, components_join, isAbsolute_nil, if_neg Bool.false_ne_true, habsolute', hspoken',
      spokenSegments_nil, List.append_nil]
  · rw [← hq, hbody]

/-- A path is rebuilt from its root, its names and its upward steps, but for a slash at its end. -/
theorem Straight.rebuilt (h : q.Straight) (hp : p = q ∨ p = q.join ⟨[]⟩) :
    p.isAbsolute = true ∧ p.rootOf.extend p.spokenSegments = q := by
  obtain ⟨root, ss, hroot, hss, hextend⟩ := h
  have hrooted : Rooted root q := hextend ▸ (Rooted.refl root).extend hroot hss
  obtain ⟨habsolute, hspoken⟩ := components_eq_iff.mp (components_extend (p := root) hss)
  rw [isAbsolute_of_isRoot hroot, ← hextend] at habsolute
  rw [spokenSegments_of_isRoot hroot, ← hextend, List.nil_append] at hspoken
  rcases hp with rfl | rfl
  · rw [hrooted.rootOf hroot, hspoken]
    exact ⟨habsolute, hextend.symm⟩
  · rw [(hrooted.join hroot isAbsolute_nil).rootOf hroot, spokenSegments_join isAbsolute_nil,
      hspoken, spokenSegments_nil, List.append_nil, isAbsolute_join isAbsolute_nil]
    exact ⟨habsolute, hextend.symm⟩

/-- A path that is written like one stays as it is when it is made absolute again. -/
theorem absolute?_of_normal (h : p.Normal) (base : Path) : absolute? base p = some p := by
  have hrebuilt : ∀ {q : Path}, q.Straight → (p = q ∨ p = q.join ⟨[]⟩) → absolute? base p
      = some (if p.endsInSlash then q.join ⟨[]⟩ else q) := by
    intro q hq hp
    obtain ⟨habsolute, hextend⟩ := hq.rebuilt hp
    rw [absolute?_eq (isEmpty_of_isAbsolute habsolute), anchor_of_isAbsolute habsolute, hextend]
  rcases h with hp | ⟨q, hq, hp⟩
  · rw [hrebuilt hp (Or.inl rfl), join_nil (isEmpty_of_isAbsolute hp.isAbsolute)]
    split <;> rfl
  · have hends : p.endsInSlash = true := by
      rw [hp]
      exact endsInSlash_join_nil (isEmpty_of_isAbsolute hq.isAbsolute)
    rw [hrebuilt hq (Or.inr hp), hends, if_pos rfl, hp]

end Path

/-! ### Locations -/

/-- The absolute path of a location is the root with its names behind it. -/
theorem Location.path_eq_extend {l : Location} (h : ∀ s ∈ l, Path.IsSpoken s) :
    l.path = Path.extend ⟨[Path.slash]⟩ l.reverse := by
  induction l with
  | nil => rfl
  | cons s rest ih =>
    rw [List.forall_mem_cons] at h
    have hrelative := Path.isAbsolute_of_not_mem h.1.1
    rw [List.reverse_cons, Path.extend_append, ← ih h.2, Location.path, List.reverse_cons]
    show Path.ofSegments ([] :: (rest.reverse ++ [s])) = (Location.path rest).join ⟨s⟩
    have hlong : ∀ ss : List Segment, ss ≠ [] →
        Path.ofSegments ([] :: ss) = ⟨List.intercalate [Path.slash] ([] :: ss)⟩ := by
      intro ss hss
      rw [Path.ofSegments.eq_2]
      simpa using hss
    rw [Path.join, hrelative, if_neg Bool.false_ne_true, hlong _ (by simp)]
    cases rest with
    | nil =>
      rw [List.reverse_nil, List.nil_append, List.intercalate_cons_cons, List.intercalate_singleton]
      rfl
    | cons t more =>
      have hends : (Location.path (t :: more)).endsInSlash = false := by
        rw [ih h.2, List.reverse_cons, Path.extend_append]
        exact Path.endsInSlash_join_isSpoken (h.2 t List.mem_cons_self)
      have hpath : Location.path (t :: more)
          = ⟨List.intercalate [Path.slash] ([] :: (t :: more).reverse)⟩ := hlong _ (by simp)
      have hempty : (Location.path (t :: more)).isEmpty = false := by
        rw [ih h.2]
        refine Path.isEmpty_of_isAbsolute ?_
        have hspoken : ∀ s ∈ (t :: more).reverse, Path.IsSpoken s := fun s hs =>
          h.2 s (List.mem_reverse.mp hs)
        exact (Path.components_eq_iff.mp (Path.components_extend hspoken)).1
      rw [hempty, hends, Bool.or_false, if_neg Bool.false_ne_true, hpath, ← List.cons_append,
        Path.intercalate_append (List.cons_ne_nil _ _) (List.cons_ne_nil _ _),
        List.intercalate_singleton]

/-- It names the location. -/
theorem Location.components_path {l : Location} (h : ∀ s ∈ l, Path.IsSpoken s) :
    l.path.components = (true, l.reverse) := by
  rw [path_eq_extend h, Path.components_extend (fun s hs => h s (List.mem_reverse.mp hs))]
  rfl

theorem Location.straight_path {l : Location} (h : ∀ s ∈ l, Path.IsSpoken s) : l.path.Straight :=
  ⟨⟨[Path.slash]⟩, l.reverse, Or.inl rfl, fun s hs => h s (List.mem_reverse.mp hs),
    path_eq_extend h⟩

end RulePack
