import RulePack.Proofs.Json.Tokens
import RulePack.Proofs.Json.Words

/-!
# What numbers stand for

* `Numeral`, `Numeral.Text` — the parts of a number without its sign, and how they are written;
* `Numeral.value?` — the value of a number, if it is not too large;
* `readNumber_eq_ok_iff` — numbers are read so, and nothing else is read as a number;
* `Scalar`, `readScalar_eq_ok_iff` — the same for all values that are no string and have no parts.
-/

namespace RulePack.Json

/-! ### How numbers are written -/

/-- Decimal digits, at least one of them. -/
def Digits (ds : List Char) : Prop := ds ≠ [] ∧ ∀ d ∈ ds, d.isDigit = true

/-- The parts of a number without its sign. -/
structure Numeral where
  whole : List Char
  fraction : Option (List Char)
  /-- Whether the exponent is negative, and its digits. -/
  exponent : Option (Bool × List Char)

/-- A fraction begins with a point. -/
inductive FractionText : Option (List Char) → List Char → Prop
  | absent : FractionText none []
  | present {ds : List Char} (h : Digits ds) : FractionText (some ds) ('.' :: ds)

/-- The sign of an exponent, and whether it is negative. -/
inductive SignText : Bool → List Char → Prop
  | absent : SignText false []
  | plus : SignText false ['+']
  | minus : SignText true ['-']

/-- An exponent begins with a letter, and it may have a sign. -/
inductive ExponentText : Option (Bool × List Char) → List Char → Prop
  | absent : ExponentText none []
  | present {letter : Char} {downwards : Bool} {sign ds : List Char}
    (hletter : letter = 'e' ∨ letter = 'E') (hsign : SignText downwards sign) (hds : Digits ds) :
    ExponentText (some (downwards, ds)) (letter :: (sign ++ ds))

/-- A number has a whole part, which begins with a zero only if it is zero; it may have a fraction
and an exponent. -/
inductive Numeral.Text : Numeral → List Char → Prop
  | parts {whole behind power : List Char} {fraction : Option (List Char)}
    {exponent : Option (Bool × List Char)} (hwhole : Digits whole)
    (hzero : whole.head? = some '0' → whole = ['0']) (hfraction : FractionText fraction behind)
    (hexponent : ExponentText exponent power) :
    Numeral.Text ⟨whole, fraction, exponent⟩ (whole ++ (behind ++ power))

/-! ### What numbers are worth -/

/-- A floating-point number, if it is in their range. -/
def real? (negative : Bool) (significand : Nat) (e : Int) : Option Number :=
  (scaled 3 significand.toUInt64.toFloat e).map fun f => .real (if negative then -f else f)

/-- A number with an exponent.  An exponent of more than 31 bits makes any number but zero vanish or
leave the range. -/
def raised? (negative : Bool) (significand : Nat) (e : Int) (exponent : Bool × List Char) :
    Option Number :=
  let power := Nat.ofDigitChars 10 exponent.2 0
  if power < exponentLimit then
    real? negative significand (if exponent.1 then e - (power : Int) else e + (power : Int))
  else if significand ≠ 0 ∧ !exponent.1 then none
  else some (.real (if negative then -0.0 else 0.0))

namespace Numeral

/-- The number of digits of the whole part that do not fit 64 bits. -/
def dropped (n : Numeral) : Nat := n.whole.length - (gather 0 n.whole).2

/-- The digits that fit 64 bits, as a number. -/
def significand (n : Numeral) : Nat :=
  match n.fraction with
  | none => (gather 0 n.whole).1
  | some ds => (gather (gather 0 n.whole).1 ds).1

/-- The power of ten in which these digits count. -/
def scale (n : Numeral) : Int :=
  match n.fraction with
  | none => n.dropped
  | some ds => (n.dropped : Int) - (gather (gather 0 n.whole).1 ds).2

/-- The value of a number without its exponent.  Whole numbers of 64 bits are exact. -/
def plain? (negative : Bool) (n : Numeral) : Option Number :=
  if n.fraction = none ∧ Nat.ofDigitChars 10 n.whole 0 < wordLimit then
    some (wholeOf negative (Nat.ofDigitChars 10 n.whole 0))
  else real? negative n.significand n.scale

/-- The value of a number, if it is in the range of floating-point numbers. -/
def value? (negative : Bool) (n : Numeral) : Option Number :=
  n.exponent.elim (n.plain? negative) (raised? negative n.significand n.scale)

end Numeral

/-! ### Digits and their value -/

theorem le_ofDigitChars (ds : List Char) (n : Nat) : n ≤ Nat.ofDigitChars 10 ds n := by
  induction ds generalizing n with
  | nil => exact Nat.le_of_eq Nat.ofDigitChars_nil.symm
  | cons d ds ih =>
    rw [Nat.ofDigitChars_cons]
    have hle := ih (10 * n + (d.toNat - '0'.toNat))
    omega

theorem ofDigitChars_cons (d : Char) (ds : List Char) (n : Nat) :
    Nat.ofDigitChars 10 (d :: ds) n = Nat.ofDigitChars 10 ds (n * 10 + digitValue d) := by
  rw [Nat.ofDigitChars_cons, Nat.mul_comm 10 n]
  rfl

/-- While the value of digits fits 64 bits, all of them are taken. -/
theorem gather_of_lt {n : Nat} {ds : List Char} (h : Nat.ofDigitChars 10 ds n < wordLimit) :
    gather n ds = (Nat.ofDigitChars 10 ds n, ds.length) := by
  induction ds generalizing n with
  | nil => rw [gather, Nat.ofDigitChars_nil, List.length_nil]
  | cons d ds ih =>
    rw [ofDigitChars_cons] at h ⊢
    have hfits := Nat.lt_of_le_of_lt (le_ofDigitChars ds (n * 10 + digitValue d)) h
    simp only [gather, if_pos hfits, ih h, List.length_cons]

theorem gather_of_le {n : Nat} {ds : List Char} (hn : n < wordLimit)
    (h : wordLimit ≤ Nat.ofDigitChars 10 ds n) : (gather n ds).2 < ds.length := by
  induction ds generalizing n with
  | nil =>
    rw [Nat.ofDigitChars_nil] at h
    omega
  | cons d ds ih =>
    rw [ofDigitChars_cons] at h
    by_cases hfits : n * 10 + digitValue d < wordLimit
    · simp only [gather, if_pos hfits, List.length_cons]
      exact Nat.succ_lt_succ (ih hfits h)
    · simp only [gather, if_neg hfits, List.length_cons]
      exact Nat.succ_pos _

/-- No digit is dropped exactly if the value fits 64 bits. -/
theorem length_sub_gather_eq_zero_iff (ds : List Char) :
    ds.length - (gather 0 ds).2 = 0 ↔ Nat.ofDigitChars 10 ds 0 < wordLimit := by
  constructor
  · intro h
    refine Nat.lt_of_not_le fun hle => ?_
    have hlt := gather_of_le (by decide) hle
    omega
  · intro h
    rw [gather_of_lt h]
    exact Nat.sub_self _

theorem exponentOf_of_lt {n : Nat} {ds : List Char} (h : Nat.ofDigitChars 10 ds n < exponentLimit) :
    exponentOf n ds = .ok (Nat.ofDigitChars 10 ds n) := by
  induction ds generalizing n with
  | nil => rw [exponentOf, Nat.ofDigitChars_nil]
  | cons d ds ih =>
    rw [ofDigitChars_cons] at h ⊢
    have hfits := Nat.lt_of_le_of_lt (le_ofDigitChars ds (n * 10 + digitValue d)) h
    simp only [exponentOf, if_pos hfits, ih h]

theorem exponentOf_of_le {n : Nat} {ds : List Char} (hn : n < exponentLimit)
    (h : exponentLimit ≤ Nat.ofDigitChars 10 ds n) : ∃ unread, exponentOf n ds = .error unread := by
  induction ds generalizing n with
  | nil =>
    rw [Nat.ofDigitChars_nil] at h
    omega
  | cons d ds ih =>
    rw [ofDigitChars_cons] at h
    by_cases hfits : n * 10 + digitValue d < exponentLimit
    · simp only [exponentOf, if_pos hfits]
      exact ih hfits h
    · exact ⟨ds, by simp only [exponentOf, if_neg hfits]⟩

/-! ### Reading -/

theorem onFirst_eq_ok {p : Char → Prop} [DecidablePred p] {f g : List Char → Reading α}
    {cs : List Char} {r : α × List Char} :
    onFirst p f g cs = .ok r
      ↔ (∃ c behind, cs = c :: behind ∧ p c ∧ f behind = .ok r)
        ∨ ((∀ c ∈ cs.head?, ¬p c) ∧ g cs = .ok r) := by
  cases cs with
  | nil => simp [onFirst]
  | cons c behind =>
    rw [onFirst]
    split
    · rename_i hc
      constructor
      · exact fun h => Or.inl ⟨c, behind, rfl, hc, h⟩
      · rintro (⟨_, _, hcs, -, h⟩ | ⟨hnot, -⟩)
        · cases hcs
          exact h
        · exact absurd hc (hnot c rfl)
    · rename_i hc
      constructor
      · exact fun h => Or.inr ⟨fun d hd => by cases hd; exact hc, h⟩
      · rintro (⟨_, _, hcs, hp, -⟩ | ⟨-, h⟩)
        · cases hcs
          exact absurd hp hc
        · exact h

section
variable {negative : Bool} {m : Nat} {e : Int} {v : Number} {cs : List Char}

theorem realOf_eq_ok {rest left : List Char} :
    realOf negative m e rest = .ok (v, left) ↔ rest = left ∧ real? negative m e = some v := by
  rw [realOf, real?]
  cases scaled 3 m.toUInt64.toFloat e with
  | none => simp
  | some f => simp [and_comm]

theorem exponentDigits_eq_ok {downwards : Bool} {ds rest left : List Char} :
    exponentDigits negative m e downwards ds rest = .ok (v, left)
      ↔ ds ≠ [] ∧ rest = left ∧ raised? negative m e (downwards, ds) = some v := by
  by_cases hds : ds = []
  · simp [exponentDigits, hds]
  rw [exponentDigits, if_neg (by simpa using hds), raised?]
  by_cases hfits : Nat.ofDigitChars 10 ds 0 < exponentLimit
  · simp [exponentOf_of_lt hfits, hfits, hds, realOf_eq_ok]
  · obtain ⟨unread, hunread⟩ := exponentOf_of_le (by decide) (Nat.le_of_not_lt hfits)
    simp only [hunread, if_neg hfits]
    by_cases hlarge : m ≠ 0 ∧ (!downwards) = true
    · rw [if_pos hlarge, if_pos hlarge]
      simp
    · rw [if_neg hlarge, if_neg hlarge]
      simp [hds, and_comm]

/-- Behind digits a text goes on with what is no digit. -/
theorem digits_split (cs : List Char) {P : List Char → List Char → Prop}
    (hP : ∀ {ds rest}, P ds rest → ∀ c ∈ rest.head?, c.isDigit = false) :
    (cs.takeWhile Char.isDigit ≠ [] ∧ P (cs.takeWhile Char.isDigit) (cs.dropWhile Char.isDigit))
      ↔ ∃ ds rest, Digits ds ∧ cs = ds ++ rest ∧ P ds rest := by
  constructor
  · rintro ⟨hne, h⟩
    exact ⟨_, _, ⟨hne, List.all_eq_true.mp List.all_takeWhile⟩,
      List.takeWhile_append_dropWhile.symm, h⟩
  · rintro ⟨ds, rest, hds, rfl, h⟩
    obtain ⟨htake, hdrop⟩ := takeWhile_digits hds.2 (hP h)
    rw [htake, hdrop]
    exact ⟨hds.1, h⟩

/-- The digits of an exponent go up to the end. -/
theorem exponentDigits_whole {downwards : Bool} :
    exponentDigits negative m e downwards (cs.takeWhile Char.isDigit) (cs.dropWhile Char.isDigit)
        = .ok (v, [])
      ↔ Digits cs ∧ raised? negative m e (downwards, cs) = some v := by
  have hsplit := digits_split cs
    (P := fun ds rest => rest = [] ∧ raised? negative m e (downwards, ds) = some v)
    fun h c hc => by rw [h.1] at hc; cases hc
  rw [exponentDigits_eq_ok, hsplit]
  constructor
  · rintro ⟨ds, rest, hds, rfl, rfl, hv⟩
    rw [List.append_nil]
    exact ⟨hds, hv⟩
  · rintro ⟨hdigits, hv⟩
    exact ⟨cs, [], hdigits, (List.append_nil cs).symm, rfl, hv⟩

theorem Digits.head_ne {ds : List Char} (h : Digits ds) {p : Char → Prop}
    (hp : ∀ c, p c → c.isDigit = false) : ∀ c ∈ ds.head?, ¬p c := by
  intro c hc hpc
  have hdigit := h.2 c (List.mem_of_mem_head? hc)
  rw [hp c hpc] at hdigit
  cases hdigit

theorem exponentPart_eq_ok :
    exponentPart negative m e cs = .ok (v, [])
      ↔ ∃ downwards sign ds, SignText downwards sign ∧ Digits ds ∧ cs = sign ++ ds
        ∧ raised? negative m e (downwards, ds) = some v := by
  rw [exponentPart_eq_onFirst, onFirst_eq_ok]
  constructor
  · rintro (⟨c, behind, rfl, rfl, h⟩ | ⟨-, h⟩)
    · obtain ⟨hds, hv⟩ := exponentDigits_whole.mp h
      exact ⟨false, _, behind, .plus, hds, rfl, hv⟩
    rcases onFirst_eq_ok.mp h with ⟨c, behind, rfl, rfl, h⟩ | ⟨-, h⟩
    · obtain ⟨hds, hv⟩ := exponentDigits_whole.mp h
      exact ⟨true, _, behind, .minus, hds, rfl, hv⟩
    · obtain ⟨hds, hv⟩ := exponentDigits_whole.mp h
      exact ⟨false, _, cs, .absent, hds, rfl, hv⟩
  · rintro ⟨downwards, sign, ds, hsign, hds, rfl, hv⟩
    have hdigits : exponentDigits negative m e downwards (ds.takeWhile Char.isDigit)
        (ds.dropWhile Char.isDigit) = .ok (v, []) := exponentDigits_whole.mpr ⟨hds, hv⟩
    cases hsign with
    | absent =>
      refine Or.inr ⟨hds.head_ne fun c hc => hc ▸ rfl, onFirst_eq_ok.mpr (Or.inr ⟨?_, hdigits⟩)⟩
      exact hds.head_ne fun c hc => hc ▸ rfl
    | plus => exact Or.inl ⟨'+', ds, rfl, rfl, hdigits⟩
    | minus =>
      refine Or.inr ⟨?_, onFirst_eq_ok.mpr (Or.inl ⟨'-', ds, rfl, rfl, hdigits⟩)⟩
      rintro c hc rfl
      cases hc

/-- An exponent may follow; `ended` reads what is there without one. -/
theorem onExponent_eq_ok {ended : List Char → Reading Number} {plain : Option Number}
    (hended : ∀ cs, ended cs = .ok (v, []) ↔ cs = [] ∧ plain = some v) :
    onFirst (fun c => c = 'e' ∨ c = 'E') (exponentPart negative m e) ended cs = .ok (v, [])
      ↔ ∃ exponent, ExponentText exponent cs
        ∧ Option.elim exponent plain (raised? negative m e) = some v := by
  rw [onFirst_eq_ok]
  constructor
  · rintro (⟨letter, behind, rfl, hletter, h⟩ | ⟨-, h⟩)
    · obtain ⟨downwards, sign, ds, hsign, hds, rfl, hv⟩ := exponentPart_eq_ok.mp h
      exact ⟨_, .present hletter hsign hds, hv⟩
    · obtain ⟨rfl, hv⟩ := (hended cs).mp h
      exact ⟨none, .absent, hv⟩
  · rintro ⟨exponent, htext, hv⟩
    cases htext with
    | absent =>
      refine Or.inr ⟨fun c hc => ?_, (hended []).mpr ⟨rfl, hv⟩⟩
      cases hc
    | present hletter hsign hds =>
      exact Or.inl ⟨_, _, rfl, hletter, exponentPart_eq_ok.mpr ⟨_, _, _, hsign, hds, rfl, hv⟩⟩

theorem ExponentText.head {exponent : Option (Bool × List Char)} (h : ExponentText exponent cs) :
    ∀ c ∈ cs.head?, c = 'e' ∨ c = 'E' := by
  intro c hc
  cases h with
  | absent => cases hc
  | present hletter =>
    cases hc
    exact hletter

theorem ExponentText.head_isDigit {exponent : Option (Bool × List Char)}
    (h : ExponentText exponent cs) : ∀ c ∈ cs.head?, c.isDigit = false := by
  intro c hc
  rcases h.head c hc with rfl | rfl <;> rfl

theorem fractionPart_eq_ok {dropped : Nat} :
    fractionPart negative m dropped cs = .ok (v, [])
      ↔ ∃ ds rest, Digits ds ∧ cs = ds ++ rest ∧ ∃ exponent, ExponentText exponent rest
        ∧ Option.elim exponent (real? negative (gather m ds).1 (dropped - (gather m ds).2))
          (raised? negative (gather m ds).1 (dropped - (gather m ds).2)) = some v := by
  rw [fractionPart_eq_digits, ← digits_split cs fun ⟨_, htext, _⟩ => htext.head_isDigit]
  generalize cs.takeWhile Char.isDigit = ds, cs.dropWhile Char.isDigit = rest
  by_cases hds : ds = []
  · simp [fractionDigits, hds]
  rw [fractionDigits, if_neg (by simpa using hds), onExponent_eq_ok fun _ => realOf_eq_ok]
  exact (and_iff_right hds).symm

/-- A number without a fraction and an exponent is exact if no digit was dropped. -/
theorem whole_eq_ok {whole : List Char} :
    (if whole.length - (gather 0 whole).2 = 0 then .ok (wholeOf negative (gather 0 whole).1, cs)
      else realOf negative (gather 0 whole).1 (whole.length - (gather 0 whole).2 : Nat) cs)
        = Except.ok (v, [])
      ↔ cs = [] ∧ Numeral.plain? negative ⟨whole, none, none⟩ = some v := by
  rw [Numeral.plain?]
  by_cases hfits : Nat.ofDigitChars 10 whole 0 < wordLimit
  · rw [if_pos ((length_sub_gather_eq_zero_iff whole).mpr hfits), if_pos ⟨rfl, hfits⟩,
      gather_of_lt hfits]
    simp [and_comm]
  · rw [if_neg fun h => hfits ((length_sub_gather_eq_zero_iff whole).mp h),
      if_neg fun h => hfits h.2]
    exact realOf_eq_ok

theorem Numeral.value?_fraction (whole ds : List Char) (exponent : Option (Bool × List Char)) :
    Numeral.value? negative ⟨whole, some ds, exponent⟩
      = exponent.elim
        (real? negative (gather (gather 0 whole).1 ds).1
          ((whole.length - (gather 0 whole).2 : Nat) - (gather (gather 0 whole).1 ds).2))
        (raised? negative (gather (gather 0 whole).1 ds).1
          ((whole.length - (gather 0 whole).2 : Nat) - (gather (gather 0 whole).1 ds).2)) := by
  rw [Numeral.value?, Numeral.plain?, if_neg fun h => by cases h.1]
  rfl

/-- What stands behind the whole part: a fraction, and an exponent. -/
def Numeral.Behind (whole : List Char) (negative : Bool) (v : Number) (cs : List Char) : Prop :=
  ∃ fraction exponent behind power, FractionText fraction behind ∧ ExponentText exponent power
    ∧ cs = behind ++ power ∧ Numeral.value? negative ⟨whole, fraction, exponent⟩ = some v

theorem Numeral.Behind.head_isDigit {whole : List Char} (h : Numeral.Behind whole negative v cs) :
    ∀ c ∈ cs.head?, c.isDigit = false := by
  obtain ⟨fraction, exponent, behind, power, hfraction, hexponent, rfl, -⟩ := h
  cases hfraction with
  | absent => exact hexponent.head_isDigit
  | present hds =>
    intro c hc
    cases hc
    rfl

theorem numberDigits_eq_ok {digits rest : List Char} :
    numberDigits negative digits rest = .ok (v, [])
      ↔ digits ≠ [] ∧ (digits.head? = some '0' → digits = ['0'])
        ∧ Numeral.Behind digits negative v rest := by
  unfold numberDigits
  split
  · simp
  · simp
  rename_i hne hzero
  -- what is left are digits without a zero in front, so only what follows them counts
  have hfront : digits ≠ [] ∧ (digits.head? = some '0' → digits = ['0']) := by
    refine ⟨hne, fun hhead => ?_⟩
    cases digits with
    | nil => cases hhead
    | cons d more =>
      cases hhead
      cases more with
      | nil => rfl
      | cons d more => exact absurd rfl (hzero d more)
  rw [← and_assoc, and_iff_right hfront, onFirst_eq_ok,
    onExponent_eq_ok fun _ => whole_eq_ok, Numeral.Behind]
  constructor
  · rintro (⟨c, behind, rfl, rfl, h⟩ | ⟨-, exponent, hexponent, hv⟩)
    · obtain ⟨ds, power, hds, rfl, exponent, hexponent, hv⟩ := fractionPart_eq_ok.mp h
      exact ⟨some ds, exponent, _, power, .present hds, hexponent, rfl,
        (Numeral.value?_fraction digits ds exponent).trans hv⟩
    · exact ⟨none, exponent, [], rest, .absent, hexponent, rfl, hv⟩
  · rintro ⟨fraction, exponent, behind, power, hfraction, hexponent, rfl, hv⟩
    cases hfraction with
    | absent =>
      refine Or.inr ⟨fun c hc hpoint => ?_, exponent, hexponent, hv⟩
      rcases hexponent.head c hc with rfl | rfl <;> cases hpoint
    | @present ds hds =>
      refine Or.inl ⟨'.', ds ++ power, rfl, rfl, fractionPart_eq_ok.mpr ?_⟩
      exact ⟨ds, power, hds, rfl, exponent, hexponent,
        (Numeral.value?_fraction digits ds exponent).symm.trans hv⟩

/-- **Numbers.**  A text is read as a number from behind its sign exactly if it is written as one,
and it has the value of the number. -/
theorem readNumber_eq_ok_iff :
    readNumber negative cs = .ok (v, [])
      ↔ ∃ n : Numeral, n.Text cs ∧ n.value? negative = some v := by
  have hsplit := digits_split cs
    (P := fun ds rest => (ds.head? = some '0' → ds = ['0']) ∧ Numeral.Behind ds negative v rest)
    fun h => h.2.head_isDigit
  rw [readNumber_eq_digits, numberDigits_eq_ok, hsplit]
  constructor
  · rintro ⟨whole, rest, hwhole, rfl, hzero, fraction, exponent, behind, power, hfraction,
      hexponent, rfl, hv⟩
    exact ⟨_, .parts hwhole hzero hfraction hexponent, hv⟩
  · rintro ⟨n, htext, hv⟩
    cases htext with
    | parts hwhole hzero hfraction hexponent =>
      exact ⟨_, _, hwhole, rfl, hzero, _, _, _, _, hfraction, hexponent, rfl, hv⟩

end

/-! ### Values of one token -/

theorem readWord_eq_ok {ws cs rest : List Char} :
    readWord ws cs = .ok ((), rest) ↔ cs = ws ++ rest := by
  induction ws generalizing cs with
  | nil => simp [readWord]
  | cons w ws ih =>
    cases cs with
    | nil => simp [readWord]
    | cons c cs =>
      rw [readWord, List.cons_append, List.cons.injEq]
      split
      · rename_i hc
        rw [ih, and_iff_right hc]
      · rename_i hc
        simp [hc]

/-- A value that is no string and has no parts, as it is written. -/
inductive Scalar : List Char → Json → Prop
  | null : Scalar "null".toList .null
  | yes : Scalar "true".toList (.bool true)
  | no : Scalar "false".toList (.bool false)
  | number {n : Numeral} {cs : List Char} {v : Number} (htext : n.Text cs)
    (hv : n.value? false = some v) : Scalar cs (.number v)
  | minus {n : Numeral} {cs : List Char} {v : Number} (htext : n.Text cs)
    (hv : n.value? true = some v) : Scalar ('-' :: cs) (.number v)

theorem Numeral.Text.head {n : Numeral} {cs : List Char} (h : n.Text cs) :
    ∃ d more, cs = d :: more ∧ d.isDigit = true := by
  cases h with
  | @parts whole behind power fraction exponent hwhole hzero hfraction hexponent =>
    obtain ⟨d, more, rfl⟩ := List.exists_cons_of_ne_nil hwhole.1
    exact ⟨d, more ++ (behind ++ power), rfl, hwhole.2 d List.mem_cons_self⟩

/-- **Words and numbers.**  They are read just as they are written. -/
theorem readScalar_eq_ok_iff {cs : List Char} {v : Json} :
    readScalar cs = .ok (v, []) ↔ Scalar cs v := by
  constructor
  · intro h
    cases cs with
    | nil => cases h
    | cons c rest =>
      rw [readScalar] at h
      split at h
      · rename_i hc
        obtain ⟨n, hn, rfl⟩ := Reading.mapValue_eq_ok.mp h
        obtain ⟨numeral, htext, hv⟩ := readNumber_eq_ok_iff.mp hn
        exact hc ▸ .minus htext hv
      split at h
      · obtain ⟨n, hn, rfl⟩ := Reading.mapValue_eq_ok.mp h
        obtain ⟨numeral, htext, hv⟩ := readNumber_eq_ok_iff.mp hn
        exact .number htext hv
      split at h
      · rename_i hc
        obtain ⟨_, hw, rfl⟩ := Reading.mapValue_eq_ok.mp h
        rw [hc, readWord_eq_ok.mp hw]
        exact .yes
      split at h
      · rename_i hc
        obtain ⟨_, hw, rfl⟩ := Reading.mapValue_eq_ok.mp h
        rw [hc, readWord_eq_ok.mp hw]
        exact .no
      split at h
      · rename_i hc
        obtain ⟨_, hw, rfl⟩ := Reading.mapValue_eq_ok.mp h
        rw [hc, readWord_eq_ok.mp hw]
        exact .null
      · cases h
  · intro h
    cases h with
    | null => rfl
    | yes => rfl
    | no => rfl
    | number htext hv =>
      obtain ⟨d, more, rfl, hd⟩ := htext.head
      have hminus : d ≠ '-' := by
        rintro rfl
        cases hd
      rw [readScalar, if_neg hminus, if_pos hd, readNumber_eq_ok_iff.mpr ⟨_, htext, hv⟩]
      rfl
    | minus htext hv =>
      rw [readScalar, if_pos rfl, readNumber_eq_ok_iff.mpr ⟨_, htext, hv⟩]
      rfl

end RulePack.Json
