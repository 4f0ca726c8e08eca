import RulePack.Proofs.Json.Lexing

/-!
# What string literals stand for

* `Letter` — the letters that stand for a character behind a backslash;
* `Denotes` — the text that the inside of a literal stands for;
* `readString_eq_ok_iff` — literals are read so, and nothing else is read as a literal.
-/

namespace RulePack.Json

/-- A letter and the character that it stands for behind a backslash. -/
inductive Letter : Char → Char → Prop
  | quote : Letter '"' '"'
  | backslash : Letter '\\' '\\'
  | slash : Letter '/' '/'
  | backspace : Letter 'b' '\x08'
  | formFeed : Letter 'f' '\x0c'
  | newline : Letter 'n' '\n'
  | carriageReturn : Letter 'r' '\r'
  | tab : Letter 't' '\t'

theorem plainEscape?_eq_some_iff {e c : Char} : plainEscape? e = some c ↔ Letter e c := by
  constructor
  · intro h
    rw [plainEscape?] at h
    split at h
    · rename_i he
      cases h
      rcases he with rfl | rfl | rfl
      · exact .quote
      · exact .backslash
      · exact .slash
    split at h
    · rename_i he
      cases h
      exact he ▸ .backspace
    split at h
    · rename_i he
      cases h
      exact he ▸ .formFeed
    split at h
    · rename_i he
      cases h
      exact he ▸ .newline
    split at h
    · rename_i he
      cases h
      exact he ▸ .carriageReturn
    split at h
    · rename_i he
      cases h
      exact he ▸ .tab
    · cases h
  · intro h
    cases h <;> rfl

/-- The characters between the quotes of a literal, and the text that they stand for.  Quotes,
backslashes and control characters are escaped.  A character may be written as four digits in base
sixteen; surrogates are written so in pairs only, a high one and a low one. -/
inductive Denotes : List Char → List Char → Prop
  | nil : Denotes [] []
  | plain {c : Char} {cs s : List Char} (hquote : c ≠ '"') (hback : c ≠ '\\')
    (hcontrol : 0x20 ≤ c.toNat) (h : Denotes cs s) : Denotes (c :: cs) (c :: s)
  | letter {e c : Char} {cs s : List Char} (he : Letter e c) (h : Denotes cs s) :
    Denotes ('\\' :: e :: cs) (c :: s)
  | unit {h₁ h₂ h₃ h₄ : Char} {n : Nat} {cs s : List Char} (hn : hexFour? h₁ h₂ h₃ h₄ = some n)
    (hplain : n < 0xD800 ∨ 0xDFFF < n) (h : Denotes cs s) :
    Denotes ('\\' :: 'u' :: h₁ :: h₂ :: h₃ :: h₄ :: cs) (Char.ofNat n :: s)
  | pair {h₁ h₂ h₃ h₄ l₁ l₂ l₃ l₄ : Char} {n m : Nat} {cs s : List Char}
    (hn : hexFour? h₁ h₂ h₃ h₄ = some n) (hm : hexFour? l₁ l₂ l₃ l₄ = some m)
    (hhigh : 0xD800 ≤ n ∧ n ≤ 0xDBFF) (hlow : 0xDC00 ≤ m ∧ m ≤ 0xDFFF) (h : Denotes cs s) :
    Denotes ('\\' :: 'u' :: h₁ :: h₂ :: h₃ :: h₄ :: '\\' :: 'u' :: l₁ :: l₂ :: l₃ :: l₄ :: cs)
      (Char.ofNat (0x10000 + (n - 0xD800) * 0x400 + (m - 0xDC00)) :: s)

theorem isLowSurrogate_iff {n : Nat} : isLowSurrogate n = true ↔ 0xDC00 ≤ n ∧ n ≤ 0xDFFF := by
  simp only [isLowSurrogate, Bool.and_eq_true, decide_eq_true_eq]

theorem isHighSurrogate_iff {n : Nat} : isHighSurrogate n = true ↔ 0xD800 ≤ n ∧ n ≤ 0xDBFF := by
  simp only [isHighSurrogate, Bool.and_eq_true, decide_eq_true_eq]

/-- A number that is no surrogate is neither a low nor a high one. -/
theorem not_surrogate_iff {n : Nat} :
    (isLowSurrogate n = false ∧ isHighSurrogate n = false) ↔ n < 0xD800 ∨ 0xDFFF < n := by
  rw [← Bool.not_eq_true, ← Bool.not_eq_true, isLowSurrogate_iff, isHighSurrogate_iff]
  omega

/-- What is read is the text of the literal up to its closing quote. -/
theorem denotes_of_readString {cs s rest : List Char} (h : readString cs = .ok (s, rest)) :
    ∃ body, Denotes body s ∧ cs = body ++ '"' :: rest := by
  fun_induction readString cs generalizing s with
  | case2 behind =>
    cases h
    exact ⟨[], .nil, rfl⟩
  | case9 h₁ h₂ h₃ h₄ n hn hlow hhigh l₁ l₂ l₃ l₄ behind m hm hpair hback ih =>
    obtain ⟨t, ht, rfl⟩ := Reading.mapValue_eq_ok.mp h
    obtain ⟨body, hbody, rfl⟩ := ih ht
    exact ⟨_, .pair hn hm (isHighSurrogate_iff.mp hhigh) (isLowSurrogate_iff.mp hpair) hbody, rfl⟩
  | case14 h₁ h₂ h₃ h₄ behind n hn hlow hhigh hback ih =>
    obtain ⟨t, ht, rfl⟩ := Reading.mapValue_eq_ok.mp h
    obtain ⟨body, hbody, rfl⟩ := ih ht
    have hplain := not_surrogate_iff.mp ⟨Bool.not_eq_true _ ▸ hlow, Bool.not_eq_true _ ▸ hhigh⟩
    exact ⟨_, .unit hn hplain hbody, rfl⟩
  | case16 e behind hu plain he hback ih =>
    obtain ⟨t, ht, rfl⟩ := Reading.mapValue_eq_ok.mp h
    obtain ⟨body, hbody, rfl⟩ := ih ht
    exact ⟨_, .letter (plainEscape?_eq_some_iff.mp he) hbody, rfl⟩
  | case19 c behind hquote hback hcontrol ih =>
    obtain ⟨t, ht, rfl⟩ := Reading.mapValue_eq_ok.mp h
    obtain ⟨body, hbody, rfl⟩ := ih ht
    exact ⟨_, .plain hquote hback (Nat.le_of_not_lt hcontrol) hbody, rfl⟩
  | _ => cases h

/-- A literal is read up to its closing quote, whatever stands behind it. -/
theorem readString_of_denotes {body s : List Char} (h : Denotes body s) (rest : List Char) :
    readString (body ++ '"' :: rest) = .ok (s, rest) := by
  induction h with
  | nil => exact readString_quote rest
  | plain hquote hback hcontrol h ih =>
    rw [List.cons_append, readString_plain hquote hback (Nat.not_lt_of_le hcontrol), ih]
    rfl
  | letter he h ih =>
    rw [List.cons_append, List.cons_append, readString_escape (plainEscape?_eq_some_iff.mpr he), ih]
    rfl
  | @unit h₁ h₂ h₃ h₄ n cs s hn hplain h ih =>
    obtain ⟨hlow, hhigh⟩ := not_surrogate_iff.mpr hplain
    show readString ('\\' :: 'u' :: h₁ :: h₂ :: h₃ :: h₄ :: (cs ++ '"' :: rest)) = _
    rw [readString_unit hn hlow hhigh, ih]
    rfl
  | @pair h₁ h₂ h₃ h₄ l₁ l₂ l₃ l₄ n m cs s hn hm hhigh hlow h ih =>
    have hnot : isLowSurrogate n = false := by
      rw [← Bool.not_eq_true, isLowSurrogate_iff]
      omega
    show readString ('\\' :: 'u' :: h₁ :: h₂ :: h₃ :: h₄ :: '\\' :: 'u' :: l₁ :: l₂ :: l₃ :: l₄
      :: (cs ++ '"' :: rest)) = _
    rw [readString_pair hn hm hnot (isHighSurrogate_iff.mpr hhigh) (isLowSurrogate_iff.mpr hlow),
      ih]
    rfl

/-- **String literals.**  A text is read from behind an opening quote exactly if a closing quote
follows, and what is between them stands for it. -/
theorem readString_eq_ok_iff {cs s rest : List Char} :
    readString cs = .ok (s, rest) ↔ ∃ body, Denotes body s ∧ cs = body ++ '"' :: rest := by
  constructor
  · exact denotes_of_readString
  · rintro ⟨body, hbody, rfl⟩
    exact readString_of_denotes hbody rest

end RulePack.Json
