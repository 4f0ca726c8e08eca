import RulePack.Json.Printer
import RulePack.Json.Token

/-!
# Printed tokens are read back

* `readString_escaped`, `readString_quoted` — a printed string literal;
* `gather_toDigits`, `readNumber_whole` — a printed whole number of 64 bits;
* `Behind` — what may stand behind a number without being read as part of it.
-/

namespace RulePack.Json

/-! ### String literals -/

/-- The four digits of a control character. -/
theorem hexFour?_control :
    ∀ n < 32, hexFour? '0' '0' (hexDigit (n / 16)) (hexDigit (n % 16)) = some n := by
  decide

theorem isLowSurrogate_control {n : Nat} (h : n < 32) : isLowSurrogate n = false := by
  simp only [isLowSurrogate, Bool.and_eq_false_iff, decide_eq_false_iff_not]
  omega

theorem isHighSurrogate_control {n : Nat} (h : n < 32) : isHighSurrogate n = false := by
  simp only [isHighSurrogate, Bool.and_eq_false_iff, decide_eq_false_iff_not]
  omega

/-- A literal writes a character with a letter, with digits in base sixteen, or as it stands. -/
theorem escaped_cases (c : Char) :
    (∃ e, plainEscape? e = some c ∧ escaped c = ['\\', e])
      ∨ (c.toNat < 32 ∧ escaped c
          = ['\\', 'u', '0', '0', hexDigit (c.toNat / 16), hexDigit (c.toNat % 16)])
      ∨ (c ≠ '"' ∧ c ≠ '\\' ∧ ¬c.toNat < 32 ∧ escaped c = [c]) := by
  unfold escaped
  -- the seven characters that have a letter
  iterate 7
    split
    · rename_i h
      subst h
      refine Or.inl ⟨_, ?_, rfl⟩
      rfl
  split
  · rename_i h
    exact Or.inr (Or.inl ⟨h, rfl⟩)
  · rename_i hquote hback _ _ _ _ _ hplain
    exact Or.inr (Or.inr ⟨hquote, hback, hplain, rfl⟩)

/-- A character is read back from the way a literal writes it. -/
theorem readString_escaped (c : Char) (rest : List Char) :
    readString (escaped c ++ rest) = (readString rest).mapValue (c :: ·) := by
  rcases escaped_cases c with ⟨e, he, hc⟩ | ⟨hlt, hc⟩ | ⟨hquote, hback, hplain, hc⟩
  · rw [hc]
    exact readString_escape he rest
  · have hread := readString_unit (hexFour?_control c.toNat hlt) (isLowSurrogate_control hlt)
      (isHighSurrogate_control hlt) rest
    rw [Char.ofNat_toNat] at hread
    rw [hc]
    exact hread
  · rw [hc]
    exact readString_plain hquote hback hplain rest

theorem readString_flatMap_escaped (cs rest : List Char) :
    readString (cs.flatMap escaped ++ '"' :: rest) = .ok (cs, rest) := by
  induction cs with
  | nil => exact readString_quote rest
  | cons c cs ih =>
    rw [List.flatMap_cons, List.append_assoc, readString_escaped, ih]
    rfl

/-- A printed text is read back from behind its opening quote. -/
theorem readString_quoted (text : String) (rest : List Char) :
    ∃ inside, quoted text ++ rest = '"' :: inside ∧ readString inside = .ok (text.toList, rest) := by
  refine ⟨text.toList.flatMap escaped ++ '"' :: rest, ?_, readString_flatMap_escaped _ _⟩
  simp [quoted]

/-! ### Whole numbers -/

/-- What stands behind a number and is no part of it. -/
def Behind (rest : List Char) : Prop :=
  ∀ c ∈ rest.head?, c.isDigit = false ∧ c ≠ '.' ∧ c ≠ 'e' ∧ c ≠ 'E'

theorem behind_nil : Behind [] := fun _ hd => by cases hd

theorem behind_cons {c : Char} (hc : c.isDigit = false ∧ c ≠ '.' ∧ c ≠ 'e' ∧ c ≠ 'E')
    (rest : List Char) : Behind (c :: rest) := by
  intro d hd
  cases hd
  exact hc

theorem isDigit_of_mem_toDigits {n : Nat} {c : Char} (h : c ∈ Nat.toDigits 10 n) :
    c.isDigit = true :=
  Nat.isDigit_of_mem_toDigits (by decide) (by decide) h

/-- Digits end before a character that is none. -/
theorem takeWhile_digits {ds rest : List Char} (hds : ∀ d ∈ ds, d.isDigit = true)
    (hrest : ∀ c ∈ rest.head?, c.isDigit = false) :
    (ds ++ rest).takeWhile Char.isDigit = ds ∧ (ds ++ rest).dropWhile Char.isDigit = rest := by
  rw [List.takeWhile_append_of_pos hds, List.dropWhile_append_of_pos hds]
  cases rest with
  | nil => simp
  | cons c more => simp [hrest c rfl]

theorem takeWhile_toDigits (n : Nat) {rest : List Char} (hrest : Behind rest) :
    (Nat.toDigits 10 n ++ rest).takeWhile Char.isDigit = Nat.toDigits 10 n
      ∧ (Nat.toDigits 10 n ++ rest).dropWhile Char.isDigit = rest :=
  takeWhile_digits (fun _ => isDigit_of_mem_toDigits) fun c hc => (hrest c hc).1

/-- Digits are taken one after the other while the value fits. -/
theorem gather_concat {s : Nat} {ds : List Char} {m : Nat} (h : gather s ds = (m, ds.length))
    {d : Char} (hfits : m * 10 + digitValue d < wordLimit) :
    gather s (ds ++ [d]) = (m * 10 + digitValue d, (ds ++ [d]).length) := by
  induction ds generalizing s with
  | nil =>
    simp only [gather, List.length_nil, Prod.mk.injEq, and_true] at h
    simp [gather, h, hfits]
  | cons e es ih =>
    simp only [gather] at h
    by_cases hnext : s * 10 + digitValue e < wordLimit
    · rw [if_pos hnext] at h
      simp only [List.length_cons, Prod.mk.injEq, Nat.add_right_cancel_iff] at h
      have hrest := ih (Prod.ext h.1 h.2)
      simp only [List.cons_append, gather, if_pos hnext, hrest, List.length_cons]
    · rw [if_neg hnext] at h
      simp at h

theorem digitValue_digitChar {d : Nat} (h : d < 10) : digitValue d.digitChar = d :=
  Nat.toNat_digitChar_sub_48_of_lt_ten h

/-- The digits of a number of 64 bits are its value. -/
theorem gather_toDigits {n : Nat} (h : n < wordLimit) :
    gather 0 (Nat.toDigits 10 n) = (n, (Nat.toDigits 10 n).length) := by
  induction n using Nat.strongRecOn with
  | ind n ih =>
    by_cases hsmall : n < 10
    · rw [Nat.toDigits_of_lt_base hsmall]
      simp [gather, digitValue_digitChar hsmall, h]
    · have hdiv : n / 10 < n := by omega
      have hmod : n % 10 < 10 := Nat.mod_lt n (by decide)
      have hvalue : n / 10 * 10 + digitValue (n % 10).digitChar = n := by
        rw [digitValue_digitChar hmod]
        omega
      have hinit := ih (n / 10) hdiv (Nat.lt_trans hdiv h)
      have hlast := gather_concat hinit (d := (n % 10).digitChar) (by rw [hvalue]; exact h)
      rw [Nat.toDigits_of_base_le (by decide) (by omega), hlast, hvalue]

theorem head?_toDigits {n : Nat} (h : 0 < n) : (Nat.toDigits 10 n).head? ≠ some '0' := by
  induction n using Nat.strongRecOn with
  | ind n ih =>
    by_cases hsmall : n < 10
    · rw [Nat.toDigits_of_lt_base hsmall]
      simp only [List.head?_cons, ne_eq, Option.some.injEq, Nat.digitChar_eq_zero]
      omega
    · rw [Nat.toDigits_of_base_le (by decide) (by omega), List.head?_append]
      cases hd : Nat.toDigits 10 (n / 10) with
      | nil => exact absurd hd Nat.toDigits_ne_nil
      | cons d ds =>
        have hdiv := ih (n / 10) (by omega) (by omega)
        rw [hd] at hdiv
        exact hdiv

/-- Only the number zero is written with a zero in front. -/
theorem toDigits_ne_zero_cons (n : Nat) (d : Char) (more : List Char) :
    Nat.toDigits 10 n ≠ '0' :: d :: more := by
  intro h
  rcases Nat.eq_zero_or_pos n with rfl | hpos
  · rw [Nat.toDigits_zero] at h
    cases h
  · exact head?_toDigits hpos (by rw [h]; rfl)

/-- The digits of a number of 64 bits are read as a whole number. -/
theorem readNumber_toDigits {n : Nat} (h : n < wordLimit) (negative : Bool) {rest : List Char}
    (hrest : Behind rest) :
    readNumber negative (Nat.toDigits 10 n ++ rest) = .ok (wholeOf negative n, rest) := by
  obtain ⟨hdigits, hbehind⟩ := takeWhile_toDigits n hrest
  rw [readNumber]
  simp only [hdigits, hbehind]
  split
  · rename_i hnil
    exact absurd hnil Nat.toDigits_ne_nil
  · rename_i hzero
    exact absurd hzero (toDigits_ne_zero_cons n _ _)
  · simp only [gather_toDigits h, Nat.sub_self]
    cases rest with
    | nil => rfl
    | cons c more =>
      obtain ⟨-, hpoint, he, hE⟩ := hrest c rfl
      simp [hpoint, he, hE]

end RulePack.Json
