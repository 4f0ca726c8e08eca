import RulePack.Proofs.Comment.Pieces

/-!
# String literals that are closed

`literalLength` searches for the end of a literal.  Here the literals that have an end are built up
from behind their opening quote.

* `Closed` — what stands behind an opening quote, up to the closing one;
* `literalLength_of_closed`, `closed_or_unclosed` — the search finds the end of a literal exactly
  where it is closed;
* `stripFrom_closed`, `stripFrom_unclosed` — stripping passes over a literal.
-/

namespace RulePack.Comment

/-- The characters of a literal behind its opening quote, up to the closing one.  A backslash
escapes the character behind it. -/
inductive Closed : List Char → Prop
  | quote : Closed ['"']
  | escape (c : Char) {cs : List Char} (h : Closed cs) : Closed ('\\' :: c :: cs)
  | plain {c : Char} (hquote : c ≠ '"') (hback : c ≠ '\\') {cs : List Char} (h : Closed cs) :
    Closed (c :: cs)

/-! ### The search for the end -/

/-- An even number of backslashes makes no difference to what stands behind it. -/
theorem backslashesAtEnd_append {front : List Char} (h : backslashesAtEnd front % 2 = 0)
    (cs : List Char) : backslashesAtEnd (front ++ cs) % 2 = backslashesAtEnd cs % 2 := by
  rw [backslashesAtEnd, backslashesAtEnd, List.reverse_append, List.takeWhile_append]
  split
  · rename_i hall
    rw [backslashesAtEnd] at h
    rw [List.length_append, hall]
    omega
  · rfl

theorem closesLiteral_append {front : List Char} (h : backslashesAtEnd front % 2 = 0)
    (before behind : List Char) :
    closesLiteral (front ++ before) behind = closesLiteral before behind := by
  rw [closesLiteral, closesLiteral, backslashesAtEnd_append h]

theorem literalLength_quote (rest : List Char) : literalLength ('"' :: rest) = 1 := by
  rw [literalLength, closing_cons]
  rfl

theorem literalLength_plain {c : Char} (hquote : c ≠ '"') (hback : c ≠ '\\') (rest : List Char) :
    literalLength (c :: rest) = literalLength rest + 1 := by
  have heven : backslashesAtEnd [c] % 2 = 0 := by simp [backslashesAtEnd, hback]
  have hopen : closesLiteral [] (c :: rest) = false := by simp [closesLiteral, hquote]
  have hsame := closesLiteral_append heven
  simp only [List.singleton_append] at hsame
  rw [literalLength, closing_cons, if_neg (by simp [hopen]), literalLength]
  simp only [hsame]

theorem literalLength_escape (c : Char) (rest : List Char) :
    literalLength ('\\' :: c :: rest) = literalLength rest + 2 := by
  have heven : backslashesAtEnd ['\\', c] % 2 = 0 := by
    by_cases hc : c = '\\' <;> simp [backslashesAtEnd, hc]
  have hopen : closesLiteral ['\\'] (c :: rest) = false := by
    simp [closesLiteral, backslashesAtEnd]
  have hsame := closesLiteral_append heven
  simp only [List.cons_append, List.nil_append] at hsame
  rw [literalLength, closing_cons, if_neg (by simp [closesLiteral]), closing_cons,
    if_neg (by simp [hopen]), literalLength]
  simp only [hsame]

/-- The search stops at the end of a closed literal, whatever stands behind it. -/
theorem literalLength_of_closed {body : List Char} (h : Closed body) (more : List Char) :
    literalLength (body ++ more) = body.length := by
  induction h with
  | quote => exact literalLength_quote more
  | escape c h ih =>
    rw [List.cons_append, List.cons_append, literalLength_escape, ih]
    rfl
  | plain hquote hback h ih =>
    rw [List.cons_append, literalLength_plain hquote hback, ih]
    rfl

/-- The search gives a closed literal or everything that is left. -/
theorem closed_or_unclosed :
    ∀ cs : List Char, Closed (cs.take (literalLength cs)) ∨ literalLength cs = cs.length
  | [] => Or.inr rfl
  | c :: rest => by
    by_cases hquote : c = '"'
    · rw [hquote, literalLength_quote]
      exact Or.inl Closed.quote
    by_cases hback : c = '\\'
    · rw [hback]
      cases rest with
      | nil => exact Or.inr rfl
      | cons d rest =>
        rw [literalLength_escape]
        rcases closed_or_unclosed rest with h | h
        · exact Or.inl (Closed.escape d h)
        · exact Or.inr (congrArg (· + 2) h)
    · rw [literalLength_plain hquote hback]
      rcases closed_or_unclosed rest with h | h
      · exact Or.inl (Closed.plain hquote hback h)
      · exact Or.inr (congrArg (· + 1) h)

/-! ### Stripping -/

/-- Stripping passes over a closed literal. -/
theorem stripFrom_closed {body : List Char} (h : Closed body) (more : List Char) :
    stripFrom (.literal false) (body ++ more) = body ++ stripFrom .code more := by
  induction h with
  | quote => simp [stripFrom]
  | escape c h ih => simp [stripFrom, ih]
  | plain hquote hback h ih => simp [stripFrom, hquote, hback, ih]

/-- Stripping does not get out of a literal that is not closed. -/
theorem stripFrom_unclosed {body : List Char} (h : literalLength body = body.length) :
    stripFrom (.literal false) body = body := by
  have hbody := stripFrom_literal [] body
  simp only [List.nil_append] at hbody
  have hlength : closing (fun inside => closesLiteral inside) 1 body = body.length := h
  rw [hlength, List.take_length, List.drop_length] at hbody
  exact hbody.trans (List.append_nil body)

end RulePack.Comment
