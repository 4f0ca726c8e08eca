import RulePack.Json.Reader
import RulePack.Proofs.Comment.Literals

/-!
# The tokens of a text

* `Token`, `tokens` — string literals, words and single marks, with nothing left of the blanks
  between them;
* `Ends` — where a word ends;
* `tokens_eq_mark`, `tokens_eq_word`, `tokens_eq_literal` — a text from its first token on;
* `readString_closed` — a string literal is read up to its closing quote.
-/

namespace RulePack.Json

open Comment (literalLength Closed)

/-! ### Tokens -/

/-- The characters of which numbers and words are made. -/
def isWordChar (c : Char) : Bool := c.isAlphanum || c = '+' || c = '-' || c = '.'

/-- A token of a text. -/
inductive Token where
  /-- A single character that belongs to no other token. -/
  | mark (c : Char)
  /-- A longest run of word characters. -/
  | word (letters : List Char)
  /-- A string literal, from behind its opening quote up to the closing one. -/
  | literal (inside : List Char)
  deriving DecidableEq, Repr

/-- The tokens of a text, from left to right. -/
def tokens : List Char → List Token
  | [] => []
  | c :: rest =>
    if isBlank c then tokens rest
    else if c = '"' then
      .literal (rest.take (literalLength rest)) :: tokens (rest.drop (literalLength rest))
    else if isWordChar c then
      .word (c :: rest.takeWhile isWordChar) :: tokens (rest.dropWhile isWordChar)
    else .mark c :: tokens rest
termination_by cs => cs.length
decreasing_by
  · exact Nat.lt_succ_self _
  · rw [List.length_drop, List.length_cons]
    omega
  · exact Nat.lt_succ_of_le (List.dropWhile_sublist _).length_le
  · exact Nat.lt_succ_self _

theorem tokens_nil : tokens [] = [] := by rw [tokens]

theorem tokens_blank {c : Char} (hc : isBlank c = true) (rest : List Char) :
    tokens (c :: rest) = tokens rest := by
  rw [tokens, if_pos hc]

theorem tokens_quote (rest : List Char) :
    tokens ('"' :: rest)
      = .literal (rest.take (literalLength rest)) :: tokens (rest.drop (literalLength rest)) := by
  rw [tokens, if_neg (by decide), if_pos rfl]

theorem isWordChar_of_isBlank {c : Char} (hc : isBlank c = true) : isWordChar c = false := by
  simp only [isBlank, Bool.or_eq_true, decide_eq_true_eq] at hc
  rcases hc with ((rfl | rfl) | rfl) | rfl <;> decide

theorem isBlank_of_isWordChar {c : Char} (hc : isWordChar c = true) : isBlank c = false := by
  cases hblank : isBlank c with
  | true => exact absurd hc (by simp [isWordChar_of_isBlank hblank])
  | false => rfl

theorem tokens_wordChar {c : Char} (hc : isWordChar c = true) (rest : List Char) :
    tokens (c :: rest)
      = .word (c :: rest.takeWhile isWordChar) :: tokens (rest.dropWhile isWordChar) := by
  have hquote : c ≠ '"' := by
    rintro rfl
    revert hc
    decide
  rw [tokens, if_neg (by simp [isBlank_of_isWordChar hc]), if_neg hquote, if_pos hc]

theorem tokens_mark {c : Char} (hblank : isBlank c = false) (hquote : c ≠ '"')
    (hword : isWordChar c = false) (rest : List Char) :
    tokens (c :: rest) = .mark c :: tokens rest := by
  rw [tokens, if_neg (by simp [hblank]), if_neg hquote, if_neg (by simp [hword])]

theorem tokens_skipBlanks (cs : List Char) : tokens (skipBlanks cs) = tokens cs := by
  rw [skipBlanks]
  induction cs with
  | nil => rfl
  | cons c rest ih =>
    rw [List.dropWhile_cons]
    split
    · rename_i hblank
      rw [ih, tokens_blank hblank]
    · rfl

/-- A text has no more tokens than characters. -/
theorem length_tokens_le (cs : List Char) : (tokens cs).length ≤ cs.length := by
  fun_induction tokens cs with
  | case1 => exact Nat.le_refl 0
  | case2 c rest hblank ih => exact Nat.le_succ_of_le ih
  | case3 rest hblank ih =>
    rw [List.length_drop] at ih
    rw [List.length_cons, List.length_cons]
    omega
  | case4 c rest hblank hquote hword ih =>
    have hle := (List.dropWhile_sublist isWordChar (l := rest)).length_le
    rw [List.length_cons, List.length_cons]
    omega
  | case5 c rest hblank hquote hword ih => exact Nat.succ_le_succ ih

/-- A closed literal is one token. -/
theorem tokens_literal {body : List Char} (h : Closed body) (rest : List Char) :
    tokens ('"' :: (body ++ rest)) = .literal body :: tokens rest := by
  rw [tokens_quote, Comment.literalLength_of_closed h, List.take_left, List.drop_left]

/-! ### The end of a word -/

/-- A word that stands before `rest` ends there. -/
def Ends (rest : List Char) : Prop := ∀ c ∈ rest.head?, isWordChar c = false

theorem ends_nil : Ends [] := fun _ h => by cases h

theorem ends_cons {c : Char} (hc : isWordChar c = false) (rest : List Char) : Ends (c :: rest) := by
  intro d hd
  cases hd
  exact hc

theorem ends_dropWhile (cs : List Char) : Ends (cs.dropWhile isWordChar) := by
  intro c hc
  have hhead := List.head?_dropWhile_not isWordChar cs
  rw [Option.mem_def.mp hc] at hhead
  simpa using hhead

/-- Word characters that nothing continues are one word. -/
theorem tokens_word {w rest : List Char} (hne : w ≠ []) (hw : ∀ c ∈ w, isWordChar c = true)
    (hrest : Ends rest) : tokens (w ++ rest) = .word w :: tokens rest := by
  obtain ⟨c, cs, rfl⟩ := List.exists_cons_of_ne_nil hne
  rw [List.forall_mem_cons] at hw
  have hnone : rest.takeWhile isWordChar = [] ∧ rest.dropWhile isWordChar = rest := by
    cases rest with
    | nil => exact ⟨rfl, rfl⟩
    | cons d more =>
      have hd := hrest d rfl
      rw [List.takeWhile_cons_of_neg (by simp [hd]), List.dropWhile_cons_of_neg (by simp [hd])]
      exact ⟨rfl, rfl⟩
  rw [List.cons_append, tokens_wordChar hw.1, List.takeWhile_append_of_pos hw.2,
    List.dropWhile_append_of_pos hw.2, hnone.1, hnone.2, List.append_nil]

/-! ### The first token -/

theorem isBlank_of_skipBlanks {cs : List Char} {c : Char} {rest : List Char}
    (h : skipBlanks cs = c :: rest) : isBlank c = false := by
  have hhead := List.head?_dropWhile_not isBlank cs
  rw [← skipBlanks, h] at hhead
  simpa using hhead

/-- What the first token of a text is, and where it stands. -/
inductive FirstToken (cs : List Char) : List Token → Prop
  | none (hskip : skipBlanks cs = []) : FirstToken cs []
  | mark {c : Char} {rest : List Char} (hskip : skipBlanks cs = c :: rest) :
    FirstToken cs (.mark c :: tokens rest)
  | word {w rest : List Char} (hskip : skipBlanks cs = w ++ rest) (hne : w ≠ [])
    (hrest : Ends rest) : FirstToken cs (.word w :: tokens rest)
  | literal {body rest : List Char} (hskip : skipBlanks cs = '"' :: (body ++ rest)) :
    FirstToken cs (.literal body :: tokens rest)

theorem firstToken_tokens (cs : List Char) : FirstToken cs (tokens cs) := by
  rw [← tokens_skipBlanks cs]
  cases hskip : skipBlanks cs with
  | nil =>
    rw [tokens_nil]
    exact .none hskip
  | cons c rest =>
    by_cases hquote : c = '"'
    · rw [hquote, tokens_quote]
      exact .literal (by rw [hskip, hquote, List.take_append_drop])
    cases hword : isWordChar c with
    | true =>
      rw [tokens_wordChar hword]
      refine .word ?_ (List.cons_ne_nil _ _) (ends_dropWhile rest)
      rw [hskip, List.cons_append, List.takeWhile_append_dropWhile]
    | false =>
      rw [tokens_mark (isBlank_of_skipBlanks hskip) hquote hword]
      exact .mark hskip

variable {cs : List Char} {more : List Token}

theorem tokens_eq_nil (h : tokens cs = []) : skipBlanks cs = [] := by
  have hfirst := firstToken_tokens cs
  rw [h] at hfirst
  cases hfirst with
  | none hskip => exact hskip

theorem tokens_eq_mark {c : Char} (h : tokens cs = .mark c :: more) :
    ∃ rest, skipBlanks cs = c :: rest ∧ tokens rest = more := by
  have hfirst := firstToken_tokens cs
  rw [h] at hfirst
  cases hfirst with
  | mark hskip => exact ⟨_, hskip, rfl⟩

theorem tokens_eq_word {w : List Char} (h : tokens cs = .word w :: more) :
    ∃ rest, skipBlanks cs = w ++ rest ∧ w ≠ [] ∧ Ends rest ∧ tokens rest = more := by
  have hfirst := firstToken_tokens cs
  rw [h] at hfirst
  cases hfirst with
  | word hskip hne hrest => exact ⟨_, hskip, hne, hrest, rfl⟩

theorem tokens_eq_literal {body : List Char} (h : tokens cs = .literal body :: more) :
    ∃ rest, skipBlanks cs = '"' :: (body ++ rest) ∧ tokens rest = more := by
  have hfirst := firstToken_tokens cs
  rw [h] at hfirst
  cases hfirst with
  | literal hskip => exact ⟨_, hskip, rfl⟩

/-! ### String literals -/

theorem hexValue?_isSome {c : Char} {n : Nat} (h : hexValue? c = some n) : c ≠ '"' ∧ c ≠ '\\' := by
  constructor
  · rintro rfl
    exact Option.some_ne_none n h.symm
  · rintro rfl
    exact Option.some_ne_none n h.symm

/-- Digits in base sixteen stand for themselves in a literal. -/
theorem closed_hexFour {h₁ h₂ h₃ h₄ : Char} {n : Nat} (h : hexFour? h₁ h₂ h₃ h₄ = some n)
    {cs : List Char} (hcs : Closed cs) : Closed (h₁ :: h₂ :: h₃ :: h₄ :: cs) := by
  simp only [hexFour?, Option.bind_eq_bind, Option.bind_eq_some_iff] at h
  obtain ⟨_, h₁, _, h₂, _, h₃, _, h₄, -⟩ := h
  have plain {c : Char} {n : Nat} (hc : hexValue? c = some n) {cs : List Char} (hcs : Closed cs) :
      Closed (c :: cs) := .plain (hexValue?_isSome hc).1 (hexValue?_isSome hc).2 hcs
  exact plain h₁ (plain h₂ (plain h₃ (plain h₄ hcs)))

/-- A pair of surrogates stands for one character. -/
theorem readString_pair {h₁ h₂ h₃ h₄ l₁ l₂ l₃ l₄ : Char} {n m : Nat}
    (hn : hexFour? h₁ h₂ h₃ h₄ = some n) (hm : hexFour? l₁ l₂ l₃ l₄ = some m)
    (hlow : isLowSurrogate n = false) (hhigh : isHighSurrogate n = true)
    (hpair : isLowSurrogate m = true) (rest : List Char) :
    readString ('\\' :: 'u' :: h₁ :: h₂ :: h₃ :: h₄ :: '\\' :: 'u' :: l₁ :: l₂ :: l₃ :: l₄ :: rest)
      = (readString rest).mapValue (paired n m :: ·) := by
  rw [readString.eq_def]
  simp [hn, hm, hlow, hhigh, hpair]

/-- The characters begin with a closed literal of the text `s`, and `rest` stands behind it. -/
def ClosedAt (cs s rest : List Char) : Prop :=
  ∃ body, Closed body ∧ cs = body ++ rest ∧ ∀ more, readString (body ++ more) = .ok (s, more)

/-- Characters of a literal that stand for one character. -/
theorem ClosedAt.append (front : List Char) {cs s rest : List Char} {c : Char}
    (hclosed : ∀ body, Closed body → Closed (front ++ body))
    (hread : ∀ more, readString (front ++ more) = (readString more).mapValue (c :: ·))
    (hinner : ∀ {s}, readString cs = .ok (s, rest) → ClosedAt cs s rest)
    (h : (readString cs).mapValue (c :: ·) = .ok (s, rest)) : ClosedAt (front ++ cs) s rest := by
  obtain ⟨t, ht, rfl⟩ := Reading.mapValue_eq_ok.mp h
  obtain ⟨body, hbody, hcs, hall⟩ := hinner ht
  refine ⟨front ++ body, hclosed body hbody, by rw [hcs, List.append_assoc], fun more => ?_⟩
  rw [List.append_assoc, hread, hall, Reading.mapValue_ok]

/-- A string literal is read up to its closing quote, whatever stands behind it. -/
theorem readString_closed {cs s rest : List Char} (h : readString cs = .ok (s, rest)) :
    ClosedAt cs s rest := by
  fun_induction readString cs generalizing s with
  | case2 behind =>
    cases h
    exact ⟨['"'], Closed.quote, rfl, readString_quote⟩
  | case9 h₁ h₂ h₃ h₄ n hn hlow hhigh l₁ l₂ l₃ l₄ behind m hm hpair hback ih =>
    refine ClosedAt.append ['\\', 'u', h₁, h₂, h₃, h₄, '\\', 'u', l₁, l₂, l₃, l₄]
      (fun body hbody => ?_) (fun more => ?_) ih h
    · exact .escape 'u' (closed_hexFour hn (.escape 'u' (closed_hexFour hm hbody)))
    · exact readString_pair hn hm (by simpa using hlow) hhigh hpair more
  | case14 h₁ h₂ h₃ h₄ behind n hn hlow hhigh hback ih =>
    refine ClosedAt.append ['\\', 'u', h₁, h₂, h₃, h₄]
      (fun body hbody => ?_) (fun more => ?_) ih h
    · exact .escape 'u' (closed_hexFour hn hbody)
    · exact readString_unit hn (by simpa using hlow) (by simpa using hhigh) more
  | case16 e behind hu plain he hback ih =>
    exact ClosedAt.append ['\\', e] (fun _ => .escape e)
      (fun more => readString_escape he more) ih h
  | case19 c behind hquote hback hcontrol ih =>
    exact ClosedAt.append [c] (fun _ => .plain hquote hback)
      (fun more => readString_plain hquote hback hcontrol more) ih h
  | _ => cases h

end RulePack.Json
