import RulePack.Proofs.Path.Names

/-!
# The components of paths

* `Text.eq_cons_of_bytes` — a text whose bytes begin with an ASCII byte begins with that character;
* `Path.splitSlashes_intercalate`, `Path.intercalate_splitSlashes` — segments are read back from the
  path that they make;
* `Path.components` — where a path starts, and the names and upward steps that it is made of;
* `Path.spokenSegments_append_slash` — the components on both sides of a slash;
* `Path.components_join`, `Path.components_child` — the components of a path that is continued;
* `Path.toList_of_segments` — texts that begin with a component of dots.
-/

namespace RulePack

namespace Text

theorem bytes_append (text more : String) : bytes (text ++ more) = bytes text ++ bytes more := by
  rw [bytes, String.toList_append, List.flatMap_append, bytes, bytes]

/-- An ASCII character is written with its own byte. -/
theorem utf8EncodeChar_ascii {c : Char} (h : c.toNat < 128) :
    String.utf8EncodeChar c = [UInt8.ofNat c.toNat] := by
  have hsmall : c.val.toNat ≤ 127 := Nat.le_of_lt_succ h
  rw [String.utf8EncodeChar, if_pos hsmall]
  rfl

/-- The writing of any other character begins with no ASCII byte. -/
theorem utf8EncodeChar_other {c : Char} (h : ¬c.toNat < 128) :
    ∃ b rest, String.utf8EncodeChar c = b :: rest ∧ 128 ≤ b.toNat := by
  have hlarge : ¬c.val.toNat ≤ 127 := fun hle => h (Nat.lt_succ_of_le hle)
  rw [String.utf8EncodeChar, if_neg hlarge]
  split
  · refine ⟨_, _, rfl, ?_⟩
    rw [UInt8.toNat_ofNat']
    omega
  split
  · refine ⟨_, _, rfl, ?_⟩
    rw [UInt8.toNat_ofNat']
    omega
  · refine ⟨_, _, rfl, ?_⟩
    rw [UInt8.toNat_ofNat']
    omega

/-- A text whose bytes begin with that of an ASCII character begins with that character. -/
theorem eq_cons_of_bytes {text : String} {c : Char} {rest : List UInt8} (hc : c.toNat < 128)
    (h : bytes text = UInt8.ofNat c.toNat :: rest) :
    ∃ cs, text.toList = c :: cs ∧ bytes (String.ofList cs) = rest := by
  rw [bytes] at h
  cases hlist : text.toList with
  | nil =>
    rw [hlist] at h
    cases h
  | cons d ds =>
    rw [hlist, List.flatMap_cons] at h
    have hnat : (UInt8.ofNat c.toNat).toNat = c.toNat := by
      rw [UInt8.toNat_ofNat']
      omega
    by_cases hd : d.toNat < 128
    · rw [utf8EncodeChar_ascii hd, List.singleton_append, List.cons.injEq] at h
      have heq : d.toNat = c.toNat := by
        have hbyte := congrArg UInt8.toNat h.1
        rw [UInt8.toNat_ofNat', hnat] at hbyte
        omega
      refine ⟨ds, by rw [← Char.ofNat_toNat d, heq, Char.ofNat_toNat], ?_⟩
      rw [bytes, String.toList_ofList, h.2]
    · obtain ⟨first, more, hwritten, hfirst⟩ := utf8EncodeChar_other hd
      rw [hwritten, List.cons_append, List.cons.injEq] at h
      rw [h.1, hnat] at hfirst
      omega

/-- A text whose bytes begin with those of an ASCII text begins with that text. -/
theorem eq_append_of_bytes {front : List Char} {text : String} {rest : List UInt8}
    (hascii : ∀ c ∈ front, c.toNat < 128) (h : bytes text = bytes (String.ofList front) ++ rest) :
    ∃ cs, text.toList = front ++ cs := by
  induction front generalizing text with
  | nil => exact ⟨text.toList, rfl⟩
  | cons c front ih =>
    rw [List.forall_mem_cons] at hascii
    have hbytes : bytes (String.ofList (c :: front))
        = UInt8.ofNat c.toNat :: bytes (String.ofList front) := by
      rw [bytes, bytes, String.toList_ofList, String.toList_ofList, List.flatMap_cons,
        utf8EncodeChar_ascii hascii.1, List.singleton_append]
    rw [hbytes, List.cons_append] at h
    obtain ⟨ds, hlist, hrest⟩ := eq_cons_of_bytes hascii.1 h
    obtain ⟨cs, hcs⟩ := ih hascii.2 hrest
    rw [String.toList_ofList] at hcs
    exact ⟨cs, by rw [hlist, hcs, List.cons_append]⟩

end Text

namespace Path

/-! ### Segments -/

/-- A path up to its first slash is its first segment. -/
theorem eq_of_splitSlashes {bs : List UInt8} {s : Segment} {more : List Segment}
    (h : splitSlashes bs = s :: more) : bs = s ∨ ∃ rest, bs = s ++ slash :: rest := by
  induction bs generalizing s more with
  | nil =>
    cases h
    exact Or.inl rfl
  | cons b rest ih =>
    rw [splitSlashes] at h
    split at h
    · rename_i hb
      cases h
      exact Or.inr ⟨rest, by rw [hb, List.nil_append]⟩
    · cases hrest : splitSlashes rest with
      | nil => exact absurd hrest (splitSlashes_ne_nil rest)
      | cons t ts =>
        rw [hrest] at h
        cases h
        rcases ih hrest with rfl | ⟨behind, rfl⟩
        · exact Or.inl rfl
        · exact Or.inr ⟨behind, rfl⟩

theorem slash_not_mem_of_mem {bs : List UInt8} {s : Segment} (h : s ∈ splitSlashes bs) :
    slash ∉ s := by
  induction bs generalizing s with
  | nil =>
    rw [splitSlashes, List.mem_singleton] at h
    rw [h]
    exact List.not_mem_nil
  | cons b rest ih =>
    rw [splitSlashes] at h
    split at h
    · rcases List.mem_cons.mp h with rfl | hrest
      · exact List.not_mem_nil
      · exact ih hrest
    · rename_i hb
      cases hsplit : splitSlashes rest with
      | nil => exact absurd hsplit (splitSlashes_ne_nil rest)
      | cons t more =>
        rw [hsplit] at h ih
        rcases List.mem_cons.mp h with rfl | hmore
        · rw [List.mem_cons, not_or]
          exact ⟨fun heq => hb heq.symm, ih List.mem_cons_self⟩
        · exact ih (List.mem_cons_of_mem t hmore)

/-- Segments are read back from the path that they make. -/
theorem splitSlashes_intercalate {ss : List Segment} (hne : ss ≠ []) (h : ∀ s ∈ ss, slash ∉ s) :
    splitSlashes (List.intercalate [slash] ss) = ss := by
  induction ss with
  | nil => exact absurd rfl hne
  | cons s more ih =>
    rw [List.forall_mem_cons] at h
    cases more with
    | nil => rw [List.intercalate_singleton, splitSlashes_of_not_mem h.1]
    | cons t rest =>
      rw [List.intercalate_cons_cons, List.append_assoc, List.singleton_append,
        splitSlashes_append_slash, splitSlashes_of_not_mem h.1, ih (List.cons_ne_nil t rest) h.2,
        List.singleton_append]

theorem intercalate_splitSlashes (bs : List UInt8) :
    List.intercalate [slash] (splitSlashes bs) = bs := by
  induction bs with
  | nil => rfl
  | cons b rest ih =>
    rw [splitSlashes]
    cases hsplit : splitSlashes rest with
    | nil => exact absurd hsplit (splitSlashes_ne_nil rest)
    | cons s more =>
      rw [hsplit] at ih
      split
      · rename_i hb
        rw [List.intercalate_cons_cons, ih, hb]
        rfl
      · rw [← ih]
        cases more with
        | nil => rw [List.intercalate_singleton, List.intercalate_singleton]
        | cons t ts =>
          rw [List.intercalate_cons_cons, List.intercalate_cons_cons, List.cons_append,
            List.cons_append]

/-- Segments that come first make the beginning of a path. -/
theorem intercalate_append {ss : List Segment} (hne : ss ≠ []) {more : List Segment}
    (hmore : more ≠ []) : List.intercalate [slash] (ss ++ more)
      = List.intercalate [slash] ss ++ slash :: List.intercalate [slash] more := by
  induction ss with
  | nil => exact absurd rfl hne
  | cons s rest ih =>
    cases rest with
    | nil =>
      obtain ⟨t, ts, rfl⟩ := List.exists_cons_of_ne_nil hmore
      rw [List.singleton_append, List.intercalate_cons_cons, List.intercalate_singleton,
        List.append_assoc, List.singleton_append]
    | cons t ts =>
      rw [List.cons_append, List.cons_append, List.intercalate_cons_cons, ← List.cons_append,
        ih (List.cons_ne_nil t ts), List.intercalate_cons_cons, List.append_assoc,
        List.append_assoc, List.append_assoc]

/-- A path is absolute if its first segment is empty and not its only one. -/
theorem isAbsolute_iff_segments {p : Path} :
    p.isAbsolute = true ↔ ∃ s more, p.segments = [] :: s :: more := by
  rw [isAbsolute, beq_iff_eq, segments]
  cases p.bytes with
  | nil => simp [splitSlashes]
  | cons b rest =>
    cases hsplit : splitSlashes rest with
    | nil => exact absurd hsplit (splitSlashes_ne_nil rest)
    | cons s more =>
      rw [splitSlashes, hsplit]
      by_cases hb : b = slash <;> simp [hb]

/-- The names and upward steps on both sides of a slash. -/
theorem spokenSegments_append_slash (front behind : List UInt8) :
    spokenSegments ⟨front ++ slash :: behind⟩
      = spokenSegments ⟨front⟩ ++ spokenSegments ⟨behind⟩ := by
  rw [spokenSegments, spokenSegments, spokenSegments, segments, segments, segments,
    splitSlashes_append_slash, List.filter_append]

theorem spokenSegments_nil : spokenSegments ⟨[]⟩ = [] := rfl

/-- Slashes at the end say nothing. -/
theorem spokenSegments_append_slashes (bs : List UInt8) (count : Nat) :
    spokenSegments ⟨bs ++ List.replicate count slash⟩ = spokenSegments ⟨bs⟩ := by
  induction count with
  | zero => rw [List.replicate_zero, List.append_nil]
  | succ count ih =>
    rw [List.replicate_succ', ← List.append_assoc, spokenSegments_append_slash, ih,
      spokenSegments_nil, List.append_nil]

/-- A name is the only thing that it says. -/
theorem spokenSegments_name {s : Segment} (h : IsName s) : spokenSegments ⟨s⟩ = [s] := by
  obtain ⟨hne, hslash, hhere, -⟩ := h
  rw [spokenSegments, segments, splitSlashes_of_not_mem hslash]
  simp [isSilent, hne, hhere]

/-! ### Components -/

/-- Where a path starts, at the root or not, and the names and upward steps that it is made of;
single dots and repeated slashes are none of them. -/
def components (p : Path) : Bool × List Segment := (p.isAbsolute, p.spokenSegments)

theorem components_eq_iff {p : Path} {absolute : Bool} {ss : List Segment} :
    p.components = (absolute, ss) ↔ p.isAbsolute = absolute ∧ p.spokenSegments = ss := by
  rw [components, Prod.mk.injEq]

theorem spokenSegments_of_isEmpty {p : Path} (h : p.isEmpty = true) : p.spokenSegments = [] := by
  obtain ⟨bs⟩ := p
  cases List.isEmpty_iff.mp h
  rfl

/-- A path continued by a relative one says what both say. -/
theorem spokenSegments_join {p next : Path} (h : next.isAbsolute = false) :
    (p.join next).spokenSegments = p.spokenSegments ++ next.spokenSegments := by
  rw [join, h, if_neg Bool.false_ne_true]
  cases hempty : p.isEmpty with
  | true =>
    have hbytes : p.bytes = [] := List.isEmpty_iff.mp hempty
    rw [Bool.true_or, if_pos rfl, spokenSegments_of_isEmpty hempty, hbytes]
    rfl
  | false =>
    cases hends : p.endsInSlash with
    | true =>
      obtain ⟨front, hfront⟩ := List.getLast?_eq_some_iff.mp (beq_iff_eq.mp hends)
      have hp : p.spokenSegments = spokenSegments ⟨front⟩ := by
        have happend := spokenSegments_append_slashes front 1
        rw [show List.replicate 1 slash = [slash] from rfl, ← hfront] at happend
        exact happend
      rw [Bool.or_true, if_pos rfl, hfront, List.append_assoc, List.singleton_append,
        spokenSegments_append_slash, hp]
    | false => rw [Bool.or_false, if_neg Bool.false_ne_true, spokenSegments_append_slash]

theorem isAbsolute_join {p next : Path} (h : next.isAbsolute = false) :
    (p.join next).isAbsolute = p.isAbsolute := by
  rw [join, h, if_neg Bool.false_ne_true]
  cases hbytes : p.bytes with
  | nil =>
    rw [show p.isEmpty = true from List.isEmpty_iff.mpr hbytes, Bool.true_or, if_pos rfl,
      List.nil_append, isAbsolute, isAbsolute, hbytes]
    exact h
  | cons b rest => split <;> simp [isAbsolute, hbytes]

/-- A path is continued by an absolute one to that one, and by a relative one component by
component. -/
theorem components_join (p next : Path) :
    (p.join next).components = if next.isAbsolute then next.components
      else (p.isAbsolute, p.spokenSegments ++ next.spokenSegments) := by
  cases h : next.isAbsolute with
  | true => rw [join, h, if_pos rfl, if_pos rfl]
  | false =>
    rw [if_neg Bool.false_ne_true, components, isAbsolute_join h, spokenSegments_join h]

theorem components_child (p : Path) {name : String} (h : IsName (Text.bytes name)) :
    (p.child name).components = (p.isAbsolute, p.spokenSegments ++ [Text.bytes name]) := by
  rw [child, components_join, isAbsolute_ofText h, if_neg Bool.false_ne_true]
  exact congrArg _ (congrArg _ (spokenSegments_name h))

/-! ### Texts of paths -/

theorem isAbsolute_ofText_iff {text : String} :
    (ofText text).isAbsolute = true ↔ text.toList.head? = some '/' := by
  show ((Text.bytes text).head? == some slash) = true ↔ _
  rw [beq_iff_eq]
  constructor
  · intro h
    obtain ⟨rest, hrest⟩ := List.head?_eq_some_iff.mp h
    obtain ⟨cs, hcs, -⟩ := Text.eq_cons_of_bytes (c := '/') (by decide) hrest
    rw [hcs]
    rfl
  · intro h
    obtain ⟨cs, hcs⟩ := List.head?_eq_some_iff.mp h
    rw [Text.bytes, hcs, List.flatMap_cons]
    rfl

/-- A path whose first component is of dots is written with them, and a slash if there is more. -/
theorem toList_of_segments {text : String} {dots : List Char} {more : List Segment}
    (hascii : ∀ c ∈ dots, c.toNat < 128)
    (h : (ofText text).segments = Text.bytes (String.ofList dots) :: more) :
    text.toList = dots ∨ ∃ cs, text.toList = dots ++ '/' :: cs := by
  rcases eq_of_splitSlashes h with hall | ⟨rest, hfront⟩
  · refine Or.inl ?_
    rw [Text.bytes_injective hall, String.toList_ofList]
  · refine Or.inr ?_
    have hbytes : Text.bytes text = Text.bytes (String.ofList (dots ++ ['/'])) ++ rest := by
      rw [String.ofList_append, Text.bytes_append, List.append_assoc]
      exact hfront
    have hascii' : ∀ c ∈ dots ++ ['/'], c.toNat < 128 := by
      intro c hc
      rcases List.mem_append.mp hc with hdots | hslash
      · exact hascii c hdots
      · rw [List.mem_singleton.mp hslash]
        decide
    obtain ⟨cs, hcs⟩ := Text.eq_append_of_bytes hascii' hbytes
    exact ⟨cs, by rw [hcs, List.append_assoc, List.singleton_append]⟩

end Path

end RulePack
