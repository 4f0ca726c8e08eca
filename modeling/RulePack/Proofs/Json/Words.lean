import RulePack.Failure
import RulePack.Proofs.Json.Lexing

/-!
# Numbers and words

* `WordReader` — readers for which the end of a word is the end of the text;
* `wordReader_readNumber`, `wordReader_readWord` — numbers and words are read so;
* `readScalar`, `wordReader_readScalar` — any value that is neither a literal nor has parts;
* `WordReader.reads_word` — what such a reader reads, when a word ends behind it, is a whole word.
-/

namespace RulePack.Json

/-- A reader that reads from the front, and for which the end of a word is like the end of the
text. -/
structure WordReader (f : List Char → Reading α) : Prop where
  suffix : ∀ {cs a rest}, f cs = .ok (a, rest) → rest <:+ cs
  ends : ∀ w {rest}, Ends rest →
    (f (w ++ rest)).toOption = (f w).toOption.map (fun read => (read.1, read.2 ++ rest))

theorem toOption_mapValue (f : α → β) (r : Reading α) :
    (r.mapValue f).toOption = r.toOption.map (fun read => (f read.1, read.2)) := by
  cases r <;> rfl

namespace WordReader

variable {f : List Char → Reading α} {w rest : List Char} {a : α}

/-- A whole word is read, whatever stands behind it. -/
theorem reads_append (hf : WordReader f) (hrest : Ends rest) (h : f w = .ok (a, [])) :
    f (w ++ rest) = .ok (a, rest) := by
  rw [← toOption_eq_some, hf.ends w hrest, h]
  rfl

/-- What is read up to the end of a word is the whole word. -/
theorem reads_word (hf : WordReader f) (hrest : Ends rest) {cs : List Char}
    (h : f cs = .ok (a, rest)) :
    f (cs.takeWhile isWordChar) = .ok (a, []) ∧ rest = cs.dropWhile isWordChar := by
  have hsplit : cs.takeWhile isWordChar ++ cs.dropWhile isWordChar = cs :=
    List.takeWhile_append_dropWhile
  have hends := hf.ends (cs.takeWhile isWordChar) (ends_dropWhile cs)
  rw [hsplit, h] at hends
  obtain ⟨⟨b, left⟩, hread, hpair⟩ := Option.map_eq_some_iff.mp hends.symm
  rw [Prod.mk.injEq] at hpair
  obtain ⟨rfl, rfl⟩ := hpair
  rw [toOption_eq_some] at hread
  -- what is left of the word could only continue it
  cases left with
  | nil => exact ⟨hread, rfl⟩
  | cons c more =>
    have hmem : c ∈ cs.takeWhile isWordChar := (hf.suffix hread).subset (List.mem_cons_self ..)
    have hword := List.all_eq_true.mp List.all_takeWhile c hmem
    rw [hrest c rfl] at hword
    cases hword

theorem mapValue (hf : WordReader f) (g : α → β) : WordReader (fun cs => (f cs).mapValue g) where
  suffix h := by
    obtain ⟨a, ha, -⟩ := Reading.mapValue_eq_ok.mp h
    exact hf.suffix ha
  ends w _ hrest := by
    rw [toOption_mapValue, toOption_mapValue, hf.ends w hrest, Option.map_map, Option.map_map]
    rfl

end WordReader

/-! ### Readers put together -/

theorem WordReader.error (stop : List Char → Stop) :
    WordReader (fun cs => (.error (stop cs) : Reading α)) where
  suffix h := by cases h
  ends _ _ _ := rfl

theorem WordReader.ok (a : α) : WordReader (fun cs => .ok (a, cs)) where
  suffix h := by
    cases h
    exact List.suffix_refl _
  ends _ _ _ := rfl

theorem WordReader.ite (p : Prop) [Decidable p] {f g : List Char → Reading α} (hf : WordReader f)
    (hg : WordReader g) : WordReader (fun cs => if p then f cs else g cs) := by
  by_cases hp : p
  · simpa only [if_pos hp] using hf
  · simpa only [if_neg hp] using hg

/-- Goes on by `f` behind a first character of a kind, and by `g` where there is none. -/
def onFirst (p : Char → Prop) [DecidablePred p] (f g : List Char → Reading α) :
    List Char → Reading α
  | [] => g []
  | c :: behind => if p c then f behind else g (c :: behind)

theorem WordReader.onFirst {p : Char → Prop} [DecidablePred p] {f g : List Char → Reading α}
    (hp : ∀ c, p c → isWordChar c = true) (hf : WordReader f) (hg : WordReader g) :
    WordReader (onFirst p f g) := by
  constructor
  · intro cs a rest h
    cases cs with
    | nil => exact hg.suffix h
    | cons c behind =>
      rw [Json.onFirst] at h
      split at h
      · exact (hf.suffix h).trans (List.suffix_cons c behind)
      · exact hg.suffix h
  · intro w rest hrest
    cases w with
    | nil =>
      have hfirst : Json.onFirst p f g rest = g rest := by
        cases rest with
        | nil => rfl
        | cons c behind =>
          rw [Json.onFirst, if_neg]
          intro hc
          exact absurd (hp c hc) (by simp [hrest c rfl])
      rw [List.nil_append, hfirst]
      exact hg.ends [] hrest
    | cons c w =>
      rw [List.cons_append, Json.onFirst, Json.onFirst]
      split
      · exact hf.ends w hrest
      · exact hg.ends (c :: w) hrest

theorem WordReader.ite_head {p : Char → Bool} {f g : List Char → Reading α}
    (hp : ∀ c, p c = true → isWordChar c = true) (hf : WordReader f) (hg : WordReader g) :
    WordReader (fun cs => if cs.head?.any p then f cs else g cs) := by
  constructor
  · intro cs a rest h
    split at h
    · exact hf.suffix h
    · exact hg.suffix h
  · intro w rest hrest
    have hhead : (w ++ rest).head?.any p = w.head?.any p := by
      cases w with
      | cons c w => rfl
      | nil =>
        cases rest with
        | nil => rfl
        | cons c behind =>
          cases hc : p c with
          | false => simp [hc]
          | true => exact absurd (hp c hc) (by simp [hrest c rfl])
    rw [hhead]
    split
    · exact hf.ends w hrest
    · exact hg.ends w hrest

theorem isWordChar_of_isDigit {c : Char} (hc : c.isDigit = true) : isWordChar c = true := by
  simp [isWordChar, Char.isAlphanum, hc]

/-- Digits end where a word ends. -/
theorem digits_append (w : List Char) {rest : List Char} (hrest : Ends rest) :
    (w ++ rest).takeWhile Char.isDigit = w.takeWhile Char.isDigit
      ∧ (w ++ rest).dropWhile Char.isDigit = w.dropWhile Char.isDigit ++ rest := by
  induction w with
  | nil =>
    cases rest with
    | nil => exact ⟨rfl, rfl⟩
    | cons c more =>
      have hc : ¬c.isDigit = true := fun hdigit =>
        absurd (isWordChar_of_isDigit hdigit) (by simp [hrest c rfl])
      rw [List.nil_append, List.takeWhile_cons_of_neg hc, List.dropWhile_cons_of_neg hc]
      exact ⟨rfl, rfl⟩
  | cons c w ih =>
    rw [List.cons_append, List.takeWhile_cons, List.takeWhile_cons, List.dropWhile_cons,
      List.dropWhile_cons, ih.1, ih.2]
    split <;> exact ⟨rfl, rfl⟩

/-- Goes on behind digits by a reader that depends on them. -/
theorem WordReader.digits {k : List Char → List Char → Reading α} (hk : ∀ ds, WordReader (k ds)) :
    WordReader (fun cs => k (cs.takeWhile Char.isDigit) (cs.dropWhile Char.isDigit)) where
  suffix h := ((hk _).suffix h).trans (List.dropWhile_suffix _)
  ends w _ hrest := by
    rw [(digits_append w hrest).1, (digits_append w hrest).2]
    exact (hk _).ends _ hrest

/-! ### Words -/

theorem wordReader_readWord {ws : List Char} (hws : ∀ c ∈ ws, isWordChar c = true) :
    WordReader (readWord ws) := by
  induction ws with
  | nil => exact .ok ()
  | cons x ws ih =>
    rw [List.forall_mem_cons] at hws
    have hfirst : readWord (x :: ws) = onFirst (· = x) (readWord ws) fun cs =>
        .error (stopAt (if cs.isEmpty then .valueEnds else .noWord) cs) := by
      funext cs
      cases cs <;> rfl
    rw [hfirst]
    exact .onFirst (fun c hc => hc ▸ hws.1) (ih hws.2) (.error _)

/-! ### Numbers -/

section
variable (negative : Bool) (significand : Nat)

theorem wordReader_realOf (e : Int) : WordReader (realOf negative significand e) := by
  unfold realOf
  cases scaled 3 significand.toUInt64.toFloat e with
  | none => exact .error _
  | some f => exact .ok _

/-- Reads a written exponent from behind its sign; `rest` stands behind its digits. -/
def exponentDigits (e : Int) (downwards : Bool) (digits rest : List Char) : Reading Number :=
  if digits.isEmpty then
    .error (stopAt (if rest.isEmpty then .valueEnds else .badNumber) rest)
  else
    match exponentOf 0 digits with
    | .ok written =>
      realOf negative significand
        (if downwards then e - (written : Int) else e + (written : Int)) rest
    | .error unread =>
      if significand ≠ 0 ∧ !downwards then .error (stopBefore .numberTooLarge (unread ++ rest))
      else .ok (.real (if negative then -0.0 else 0.0), rest)

theorem wordReader_exponentDigits (e : Int) (downwards : Bool) (digits : List Char) :
    WordReader (exponentDigits negative significand e downwards digits) := by
  unfold exponentDigits
  refine .ite _ (.error _) ?_
  cases exponentOf 0 digits with
  | ok written => exact wordReader_realOf ..
  | error unread => exact .ite _ (.error _) (.ok _)

/-- A sign may stand before the digits of an exponent. -/
theorem exponentPart_eq_onFirst (e : Int) :
    exponentPart negative significand e
      = onFirst (· = '+') (fun cs => exponentDigits negative significand e false
          (cs.takeWhile Char.isDigit) (cs.dropWhile Char.isDigit))
        (onFirst (· = '-') (fun cs => exponentDigits negative significand e true
          (cs.takeWhile Char.isDigit) (cs.dropWhile Char.isDigit))
        (fun cs => exponentDigits negative significand e false
          (cs.takeWhile Char.isDigit) (cs.dropWhile Char.isDigit))) := by
  funext cs
  unfold exponentPart
  split
  rename_i hcs
  split at hcs
  · cases hcs
    rfl
  · cases hcs
    rfl
  · rename_i hplus hminus
    cases hcs
    cases cs with
    | nil => rfl
    | cons c behind =>
      have hplus : c ≠ '+' := fun hc => hplus behind (by rw [hc])
      have hminus : c ≠ '-' := fun hc => hminus behind (by rw [hc])
      simp only [onFirst, if_neg hplus, if_neg hminus]
      rfl

theorem wordReader_exponentPart (e : Int) : WordReader (exponentPart negative significand e) := by
  have hdigits (downwards : Bool) :=
    WordReader.digits (wordReader_exponentDigits negative significand e downwards)
  rw [exponentPart_eq_onFirst]
  exact .onFirst (fun c hc => hc ▸ rfl) (hdigits false)
    (.onFirst (fun c hc => hc ▸ rfl) (hdigits true) (hdigits false))

theorem isWordChar_of_exponent (c : Char) (hc : c = 'e' ∨ c = 'E') : isWordChar c = true := by
  rcases hc with rfl | rfl <;> rfl

/-- Reads on from behind the digits of a fraction. -/
def fractionDigits (dropped : Nat) (digits rest : List Char) : Reading Number :=
  if digits.isEmpty then
    .error (stopAt (if rest.isEmpty then .valueEnds else .badNumber) rest)
  else
    onFirst (fun c => c = 'e' ∨ c = 'E')
      (exponentPart negative (gather significand digits).1
        ((dropped : Int) - (gather significand digits).2))
      (realOf negative (gather significand digits).1
        ((dropped : Int) - (gather significand digits).2)) rest

theorem fractionPart_eq_digits (dropped : Nat) (cs : List Char) :
    fractionPart negative significand dropped cs
      = fractionDigits negative significand dropped (cs.takeWhile Char.isDigit)
        (cs.dropWhile Char.isDigit) := by
  rw [fractionPart, fractionDigits]
  cases cs.dropWhile Char.isDigit <;> rfl

theorem wordReader_fractionPart (dropped : Nat) :
    WordReader (fractionPart negative significand dropped) := by
  rw [funext (fractionPart_eq_digits negative significand dropped)]
  refine .digits fun digits => ?_
  unfold fractionDigits
  exact .ite _ (.error _)
    (.onFirst isWordChar_of_exponent (wordReader_exponentPart ..) (wordReader_realOf ..))

/-- Reads on from behind the digits of the whole part of a number. -/
def numberDigits (digits rest : List Char) : Reading Number :=
  match digits with
  | [] => .error (stopAt (if rest.isEmpty then .valueEnds else .badNumber) rest)
  | '0' :: d :: more => .error (stopAt .badNumber (d :: more ++ rest))
  | digits =>
    let dropped := digits.length - (gather 0 digits).2
    onFirst (· = '.') (fractionPart negative (gather 0 digits).1 dropped)
      (onFirst (fun c => c = 'e' ∨ c = 'E') (exponentPart negative (gather 0 digits).1 dropped)
        (fun rest => if dropped = 0 then .ok (wholeOf negative (gather 0 digits).1, rest)
          else realOf negative (gather 0 digits).1 dropped rest)) rest

theorem readNumber_eq_digits (cs : List Char) :
    readNumber negative cs
      = numberDigits negative (cs.takeWhile Char.isDigit) (cs.dropWhile Char.isDigit) := by
  rw [readNumber]
  dsimp only
  generalize cs.takeWhile Char.isDigit = digits, cs.dropWhile Char.isDigit = rest
  split
  · rfl
  · rfl
  · rename_i hnil hzero
    rw [numberDigits.eq_3 negative _ _ hnil hzero]
    cases rest <;> rfl

theorem wordReader_readNumber : WordReader (readNumber negative) := by
  rw [funext (readNumber_eq_digits negative)]
  refine .digits fun digits => ?_
  unfold numberDigits
  split
  · exact .error _
  · exact .error _
  · exact .onFirst (fun c hc => hc ▸ rfl) (wordReader_fractionPart ..)
      (.onFirst isWordChar_of_exponent (wordReader_exponentPart ..)
        (.ite _ (.ok _) (wordReader_realOf ..)))

end

/-! ### Values of one token -/

/-- Reads a value that is no string and has no parts. -/
def readScalar : List Char → Reading Json
  | [] => .error (stopAt .valueEnds [])
  | c :: rest =>
    if c = '-' then (readNumber true rest).mapValue number
    else if c.isDigit then (readNumber false (c :: rest)).mapValue number
    else if c = 't' then (readWord ['r', 'u', 'e'] rest).mapValue (fun _ => bool true)
    else if c = 'f' then (readWord ['a', 'l', 's', 'e'] rest).mapValue (fun _ => bool false)
    else if c = 'n' then (readWord ['u', 'l', 'l'] rest).mapValue (fun _ => null)
    else .error (stopAt .noValue (c :: rest))

theorem wordReader_readScalar : WordReader readScalar := by
  have hscalar : readScalar
      = onFirst (· = '-') (fun cs => (readNumber true cs).mapValue number)
        fun cs => if cs.head?.any Char.isDigit then (readNumber false cs).mapValue number
          else onFirst (· = 't')
            (fun cs => (readWord ['r', 'u', 'e'] cs).mapValue (fun _ => bool true))
            (onFirst (· = 'f')
              (fun cs => (readWord ['a', 'l', 's', 'e'] cs).mapValue (fun _ => bool false))
              (onFirst (· = 'n')
                (fun cs => (readWord ['u', 'l', 'l'] cs).mapValue (fun _ => null))
                fun cs =>
                  .error (stopAt (if cs.isEmpty then .valueEnds else .noValue) cs))) cs := by
    funext cs
    cases cs <;> rfl
  rw [hscalar]
  refine .onFirst (fun c hc => hc ▸ rfl) ((wordReader_readNumber true).mapValue number) ?_
  refine .ite_head (fun c hc => isWordChar_of_isDigit hc)
    ((wordReader_readNumber false).mapValue number) ?_
  have hword {ws : List Char} (hws : ws.all isWordChar = true) (v : Json) :
      WordReader (fun cs => (readWord ws cs).mapValue fun _ => v) :=
    (wordReader_readWord (List.all_eq_true.mp hws)).mapValue fun _ => v
  refine .onFirst (fun c hc => hc ▸ rfl) (hword rfl _) ?_
  refine .onFirst (fun c hc => hc ▸ rfl) (hword rfl _) ?_
  exact .onFirst (fun c hc => hc ▸ rfl) (hword rfl _) (.error _)

end RulePack.Json
