import RulePack.Proofs.Path.Components

/-!
# ASCII characters beside malformed bytes

A list of bytes is shown as a text even if it is not the writing of one.  An ASCII character in front
of the bytes or behind them is shown as itself and does not change how the others are shown.

* `Text.ofBytes?_eq_some_iff`, `Text.ofBytes?_cons`, `Text.ofBytes?_concat` — the bytes that are the
  writing of a text;
* `Text.repairFrom_ascii`, `Text.repairFrom_concat` — the repair of those that are not;
* `Text.shown_append`, `Text.shown_append_replicate` — both together.
-/

namespace RulePack.Text

variable {c : Char} {bs : List UInt8}

/-- The byte of an ASCII character. -/
def asciiByte (c : Char) : UInt8 := UInt8.ofNat c.toNat

theorem toNat_asciiByte (h : c.toNat < 128) : (asciiByte c).toNat = c.toNat := by
  rw [asciiByte, UInt8.toNat_ofNat']
  omega

theorem asciiByte_lt (h : c.toNat < 128) : asciiByte c < 0x80 := by
  rw [UInt8.lt_iff_toNat_lt, toNat_asciiByte h]
  exact h

theorem bytes_ascii (h : c.toNat < 128) : bytes (String.ofList [c]) = [asciiByte c] := by
  rw [bytes, String.toList_ofList, List.flatMap_singleton, utf8EncodeChar_ascii h, asciiByte]

/-! ### Bytes that are the writing of a text -/

/-- A text is read from bytes exactly if they are its writing. -/
theorem ofBytes?_eq_some_iff {text : String} : ofBytes? bs = some text ↔ bs = bytes text := by
  constructor
  · intro h
    rw [ofBytes?, String.fromUTF8?] at h
    split at h
    · rename_i hvalid
      have htext : text.toByteArray = bs.toByteArray := by
        rw [← Option.some.inj h]
        rfl
      rw [← toByteArray_bytes, List.toByteArray_inj] at htext
      exact htext.symm
    · cases h
  · intro h
    rw [h, ofBytes?_bytes]

theorem ofBytes?_eq_none_iff : ofBytes? bs = none ↔ ∀ text, bs ≠ bytes text := by
  simp only [Option.eq_none_iff_forall_ne_some, ne_eq, ofBytes?_eq_some_iff]

/-- The writing of a character that is not ASCII ends in no ASCII byte. -/
theorem utf8EncodeChar_other_last {d : Char} (h : ¬d.toNat < 128) :
    ∃ front b, String.utf8EncodeChar d = front ++ [b] ∧ 128 ≤ b.toNat := by
  have hlarge : ¬d.val.toNat ≤ 127 := fun hle => h (Nat.lt_succ_of_le hle)
  rw [String.utf8EncodeChar, if_neg hlarge]
  split
  · refine ⟨[_], _, rfl, ?_⟩
    rw [UInt8.toNat_ofNat']
    omega
  split
  · refine ⟨[_, _], _, rfl, ?_⟩
    rw [UInt8.toNat_ofNat']
    omega
  · refine ⟨[_, _, _], _, rfl, ?_⟩
    rw [UInt8.toNat_ofNat']
    omega

/-- A text whose bytes end in that of an ASCII character ends in that character. -/
theorem eq_concat_of_bytes {text : String} (hc : c.toNat < 128)
    (h : bytes text = bs ++ [asciiByte c]) :
    ∃ cs, text.toList = cs ++ [c] ∧ bytes (String.ofList cs) = bs := by
  rw [bytes] at h
  obtain hnil | ⟨ds, d, hlist⟩ := List.eq_nil_or_concat text.toList
  · rw [hnil, List.flatMap_nil] at h
    exact absurd h.symm (by simp)
  · rw [List.concat_eq_append] at hlist
    rw [hlist, List.flatMap_append, List.flatMap_singleton] at h
    by_cases hd : d.toNat < 128
    · rw [utf8EncodeChar_ascii hd] at h
      obtain ⟨hfront, hbyte⟩ := List.append_inj' h rfl
      have heq : d.toNat = c.toNat := by
        rw [← toNat_asciiByte hd, ← toNat_asciiByte hc]
        exact congrArg UInt8.toNat (List.cons.inj hbyte).1
      refine ⟨ds, ?_, ?_⟩
      · rw [hlist, ← Char.ofNat_toNat d, heq, Char.ofNat_toNat]
      · rw [bytes, String.toList_ofList, hfront]
    · obtain ⟨front, b, hwritten, hlast⟩ := utf8EncodeChar_other_last hd
      rw [hwritten, ← List.append_assoc] at h
      have hbyte := (List.cons.inj (List.append_inj' h rfl).2).1
      rw [hbyte, toNat_asciiByte hc] at hlast
      omega

theorem ofBytes?_cons (h : c.toNat < 128) (bs : List UInt8) :
    ofBytes? (asciiByte c :: bs) = (ofBytes? bs).map (String.ofList [c] ++ ·) := by
  refine Option.ext fun text => ?_
  rw [ofBytes?_eq_some_iff, Option.map_eq_some_iff]
  constructor
  · intro hbytes
    obtain ⟨cs, hlist, hrest⟩ := eq_cons_of_bytes h hbytes.symm
    refine ⟨String.ofList cs, ofBytes?_eq_some_iff.mpr hrest.symm, ?_⟩
    rw [← String.toList_inj, String.toList_append, String.toList_ofList, String.toList_ofList, hlist,
      List.singleton_append]
  · intro htext
    obtain ⟨rest, hrest, rfl⟩ := htext
    rw [bytes_append, bytes_ascii h, ofBytes?_eq_some_iff.mp hrest, List.singleton_append]

theorem ofBytes?_concat (h : c.toNat < 128) (bs : List UInt8) :
    ofBytes? (bs ++ [asciiByte c]) = (ofBytes? bs).map (· ++ String.ofList [c]) := by
  refine Option.ext fun text => ?_
  rw [ofBytes?_eq_some_iff, Option.map_eq_some_iff]
  constructor
  · intro hbytes
    obtain ⟨cs, hlist, hrest⟩ := eq_concat_of_bytes h hbytes.symm
    refine ⟨String.ofList cs, ofBytes?_eq_some_iff.mpr hrest.symm, ?_⟩
    rw [← String.toList_inj, String.toList_append, String.toList_ofList, String.toList_ofList, hlist]
  · intro htext
    obtain ⟨rest, hrest, rfl⟩ := htext
    rw [bytes_append, bytes_ascii h, ofBytes?_eq_some_iff.mp hrest]

/-! ### Bytes that are not -/

/-- An announcement is never continued by an ASCII byte. -/
def Wide (pending : Option Lead) : Prop := ∀ l ∈ pending, 0x80 ≤ l.least

theorem wide_none : Wide none := fun _ hl => by cases hl

theorem wide_lead? (b : UInt8) : Wide (lead? b) := by
  intro l hl
  rw [Option.mem_def] at hl
  grind [lead?]

theorem filter_of_wide {pending : Option Lead} (h : Wide pending) (hc : c.toNat < 128) :
    pending.filter (fun l => l.least ≤ asciiByte c && asciiByte c ≤ l.greatest) = none := by
  rw [Option.filter_eq_none_iff]
  intro l hl hin
  rw [Bool.and_eq_true, decide_eq_true_eq] at hin
  exact absurd (UInt8.lt_of_le_of_lt (UInt8.le_trans (h l hl) hin.1) (asciiByte_lt hc))
    (UInt8.lt_irrefl _)

theorem lead?_ascii (hc : c.toNat < 128) : lead? (asciiByte c) = some ⟨c.toNat, 0, 0x80, 0xBF⟩ := by
  rw [lead?, if_pos (asciiByte_lt hc), toNat_asciiByte hc]

/-- An ASCII byte is repaired to its own character, and what went before it to what it is repaired to
alone. -/
theorem repairFrom_ascii (hc : c.toNat < 128) {pending : Option Lead} (h : Wide pending)
    (bs : List UInt8) : repairFrom pending (asciiByte c :: bs)
      = repairFrom pending [] ++ c :: repairFrom none bs := by
  rw [repairFrom.eq_2, filter_of_wide h hc]
  simp only [lead?_ascii hc, if_true, Char.ofNat_toNat]
  rfl

/-- An ASCII byte behind the others is repaired to its own character. -/
theorem repairFrom_concat (hc : c.toNat < 128) {pending : Option Lead} (h : Wide pending)
    (bs : List UInt8) :
    repairFrom pending (bs ++ [asciiByte c]) = repairFrom pending bs ++ [c] := by
  fun_induction repairFrom pending bs with
  | case1 pending hsome =>
    rw [List.nil_append, repairFrom_ascii hc h, repairFrom, if_pos hsome]
    rfl
  | case2 pending hnone =>
    rw [List.nil_append, repairFrom_ascii hc h, repairFrom, if_neg hnone]
    rfl
  | case3 pending b rest l hfilter bits hlast ih =>
    rw [List.cons_append, repairFrom.eq_2]
    simp only [hfilter, hlast, if_true, ih wide_none]
    rfl
  | case4 pending b rest l hfilter bits hmore ih =>
    have hwide : Wide (some ⟨bits, l.following - 1, 0x80, 0xBF⟩) := by
      intro l' hl'
      rw [← Option.mem_some_iff.mp hl']
      exact UInt8.le_refl _
    rw [List.cons_append, repairFrom.eq_2]
    simp only [hfilter, hmore, if_false]
    exact ih hwide
  | case5 pending b rest hfilter broken hlead ih =>
    rw [List.cons_append, repairFrom.eq_2]
    simp only [hfilter, hlead, ih wide_none]
    rw [List.append_assoc, List.cons_append]
  | case6 pending b rest hfilter broken l hlead hsingle ih =>
    rw [List.cons_append, repairFrom.eq_2]
    simp only [hfilter, hlead, hsingle, if_true, ih wide_none]
    rw [List.append_assoc, List.cons_append]
  | case7 pending b rest hfilter broken l hlead hmore ih =>
    rw [List.cons_append, repairFrom.eq_2]
    simp only [hfilter, hlead, hmore, if_false, ih (hlead ▸ wide_lead? b)]
    rw [List.append_assoc]

/-! ### How bytes are shown -/

theorem shown_cons (hc : c.toNat < 128) (bs : List UInt8) :
    shown (asciiByte c :: bs) = String.ofList [c] ++ shown bs := by
  rw [shown, shown, ofBytes?_cons hc]
  cases ofBytes? bs with
  | some text => rfl
  | none =>
    show String.ofList (repairFrom none (asciiByte c :: bs)) = _
    rw [repairFrom_ascii hc wide_none, repairFrom, if_neg (by simp), List.nil_append,
      ← List.singleton_append, String.ofList_append]
    rfl

theorem shown_concat (hc : c.toNat < 128) (bs : List UInt8) :
    shown (bs ++ [asciiByte c]) = shown bs ++ String.ofList [c] := by
  rw [shown, shown, ofBytes?_concat hc]
  cases ofBytes? bs with
  | some text => rfl
  | none =>
    show String.ofList (repairFrom none (bs ++ [asciiByte c])) = _
    rw [repairFrom_concat hc wide_none, String.ofList_append]
    rfl

/-- An ASCII text in front of any bytes is shown as it is. -/
theorem shown_append {front : List Char} (h : ∀ c ∈ front, c.toNat < 128) (bs : List UInt8) :
    shown (bytes (String.ofList front) ++ bs) = String.ofList front ++ shown bs := by
  induction front with
  | nil => rw [String.ofList_nil, String.empty_append]; rfl
  | cons c front ih =>
    rw [List.forall_mem_cons] at h
    rw [← List.singleton_append, String.ofList_append, bytes_append, bytes_ascii h.1,
      List.append_assoc, List.singleton_append, shown_cons h.1, ih h.2, String.append_assoc]

/-- Characters behind any bytes are shown as they are. -/
theorem shown_append_replicate (hc : c.toNat < 128) (bs : List UInt8) (count : Nat) :
    shown (bs ++ List.replicate count (asciiByte c))
      = shown bs ++ String.ofList (List.replicate count c) := by
  induction count with
  | zero => rw [List.replicate_zero, List.append_nil, List.replicate_zero, String.ofList_nil,
      String.append_empty]
  | succ count ih =>
    rw [List.replicate_succ', ← List.append_assoc, shown_concat hc, ih, List.replicate_succ',
      String.ofList_append, String.append_assoc]

end RulePack.Text
