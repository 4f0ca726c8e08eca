import RulePack.Proofs.Comment.Spacing

/-!
# Stripped documents

Dropping comments brings characters together that were apart.  Here the pieces of what is left are
found: they are the pieces that were kept.

* `Piece.left` — what a piece becomes;
* `pieces_literal`, `pieces_unclosed`, `pieces_plain` — the pieces of a text from its first one on;
* `pieces_stripFrom` — the pieces of a stripped document;
* `InLiteral`, `inLiteral_of_opener` — in a document without comments, only literals hold what would
  open one;
* `stripFrom_of_no_comment` — such a document is its own stripped form;
* `strip_strip` — a stripped document is one.
-/

namespace RulePack.Comment

variable {cs behind : List Char} {p : Piece}

/-! ### The pieces of a text -/

theorem pieces_nil : pieces [] = [] := by rw [pieces]

theorem pieces_literal {body : List Char} (h : Closed body) (behind : List Char) :
    pieces ('"' :: (body ++ behind)) = .literal ('"' :: body) :: pieces behind := by
  rw [pieces, Piece.first, if_pos rfl, literalLength_of_closed h, List.take_left, Piece.text,
    List.length_cons, List.drop_succ_cons, List.drop_left]

theorem pieces_unclosed {body : List Char} (h : literalLength body = body.length) :
    pieces ('"' :: body) = [.literal ('"' :: body)] := by
  rw [pieces, Piece.first, if_pos rfl, h, List.take_length, Piece.text, List.length_cons,
    List.drop_succ_cons, List.drop_length, pieces_nil]

theorem pieces_plain {c : Char} (hquote : c ≠ '"') (hline : c = '/' → behind.head? ≠ some '/')
    (hblock : c = '/' → behind.head? ≠ some '*') :
    pieces (c :: behind) = .plain c :: pieces behind := by
  rw [pieces, Piece.first, if_neg hquote, if_neg fun h => hline h.1 h.2,
    if_neg fun h => hblock h.1 h.2]
  rfl

/-- Newlines are pieces of their own. -/
theorem pieces_newlines {ls : List Char} (h : ∀ c ∈ ls, c = '\n') (behind : List Char) :
    pieces (ls ++ behind) = ls.map .plain ++ pieces behind := by
  induction ls with
  | nil => rfl
  | cons c ls ih =>
    rw [List.forall_mem_cons] at h
    have hslash : c ≠ '/' := by
      rw [h.1]
      decide
    rw [List.cons_append, pieces_plain (by rw [h.1]; decide) (fun hc => absurd hc hslash)
      (fun hc => absurd hc hslash), ih h.2, List.map_cons, List.cons_append]

/-! ### The pieces of a stripped document -/

/-- The pieces that a piece becomes: a comment its newlines, anything else itself. -/
def Piece.left (p : Piece) : List Piece := if p.isComment then p.kept.map .plain else [p]

theorem Piece.isComment_of_mem_left {q : Piece} (h : q ∈ p.left) : q.isComment = false := by
  rw [left] at h
  split at h
  · obtain ⟨c, -, rfl⟩ := List.mem_map.mp h
    rfl
  · rename_i hp
    rw [List.mem_singleton.mp h]
    simpa using hp

/-- A character that is no slash is the first one that is left as well. -/
theorem head?_stripFrom_code (h : cs.head? ≠ some '/') :
    (stripFrom .code cs).head? = cs.head? := by
  cases cs with
  | nil => rfl
  | cons c rest =>
    rw [stripFrom_code_cons (fun hc => h (by rw [hc]; rfl))]
    rfl

/-- The pieces of a stripped document are those of the document, with newlines for comments. -/
theorem pieces_stripFrom (cs : List Char) :
    pieces (stripFrom .code cs) = (pieces cs).flatMap Piece.left := by
  induction cs using pieces_induction with
  | nil => rw [stripFrom, pieces_nil, List.flatMap_nil]
  | @cut cs p behind hcut hpieces ih =>
    have hstrip : stripFrom .code cs = p.kept ++ stripFrom .code behind := by
      rw [stripFrom_code_pieces, hpieces, List.flatMap_cons, stripFrom_code_pieces behind]
    rw [hstrip, hpieces, List.flatMap_cons, ← ih]
    cases hcut with
    | closed h behind => exact pieces_literal h _
    | unclosed h =>
      rw [stripFrom, List.append_nil, pieces_nil, List.append_nil]
      exact pieces_unclosed h
    | comment h => rw [pieces_newlines (kept_of_isComment h), Piece.left, if_pos h]
    | @plain c behind hquote hline hblock =>
      -- a slash is followed by what followed it before, since that begins no comment
      have hhead (hc : c = '/') : (stripFrom .code behind).head? = behind.head? :=
        head?_stripFrom_code (hline hc)
      refine pieces_plain hquote (fun hc => ?_) (fun hc => ?_)
      · exact hhead hc ▸ hline hc
      · exact hhead hc ▸ hblock hc

theorem isComment_of_mem_pieces_stripFrom (h : p ∈ pieces (stripFrom .code cs)) :
    p.isComment = false := by
  rw [pieces_stripFrom, List.mem_flatMap] at h
  obtain ⟨_, -, hleft⟩ := h
  exact Piece.isComment_of_mem_left hleft

/-! ### Documents without comments -/

/-- A document without comments is its own stripped form. -/
theorem stripFrom_of_no_comment (h : ∀ p ∈ pieces cs, p.isComment = false) :
    stripFrom .code cs = cs := by
  have hkept : ∀ p ∈ pieces cs, p.kept = p.text := by
    intro p hp
    have hno := h p hp
    cases p with
    | literal text => rfl
    | plain c => rfl
    | lineComment text => cases hno
    | blockComment text => cases hno
  calc stripFrom .code cs = (pieces cs).flatMap Piece.kept := stripFrom_code_pieces cs
    _ = (pieces cs).flatMap Piece.text := by
        rw [List.flatMap_def, List.flatMap_def, List.map_congr_left hkept]
    _ = cs := flatMap_text_pieces cs

/-- The characters behind `before` belong to a string literal that begins in it. -/
def InLiteral (cs before : List Char) : Prop :=
  ∃ ps inside more qs, pieces cs = ps ++ .literal ('"' :: (inside ++ more)) :: qs ∧ more ≠ []
    ∧ before = ps.flatMap Piece.text ++ '"' :: inside

theorem InLiteral.cons {before : List Char} (hpieces : pieces cs = p :: pieces behind)
    (h : InLiteral behind before) : InLiteral cs (p.text ++ before) := by
  obtain ⟨ps, inside, more, qs, hbehind, hmore, rfl⟩ := h
  refine ⟨p :: ps, inside, more, qs, ?_, hmore, ?_⟩
  · rw [hpieces, hbehind, List.cons_append]
  · rw [List.flatMap_cons, List.append_assoc]

/-- A character of a document is in its first piece or behind it. -/
theorem mem_first_or_behind (hpieces : pieces cs = p :: pieces behind) {before after : List Char}
    {c : Char} (hcs : cs = before ++ c :: after) :
    (∃ more, p.text = before ++ c :: more ∧ after = more ++ behind)
      ∨ ∃ before', before = p.text ++ before' ∧ behind = before' ++ c :: after := by
  have htext : p.text ++ behind = before ++ c :: after := by
    rw [← hcs, ← flatMap_text_pieces cs, hpieces, List.flatMap_cons, flatMap_text_pieces]
  rcases List.append_eq_append_iff.mp htext with ⟨before', h, hbehind⟩ | ⟨cut, h, hcut⟩
  · exact Or.inr ⟨before', h, hbehind⟩
  · cases cut with
    | nil => exact Or.inr ⟨[], by rw [h, List.append_nil, List.append_nil], hcut.symm⟩
    | cons d more =>
      cases hcut
      exact Or.inl ⟨more, h, rfl⟩

/-- A slash in the literal with which a document begins. -/
theorem inLiteral_of_first {body before more : List Char} {qs : List Piece}
    (hpieces : pieces cs = .literal ('"' :: body) :: qs)
    (hbody : '"' :: body = before ++ '/' :: more) : InLiteral cs before := by
  cases before with
  | nil => cases hbody
  | cons d inside =>
    cases hbody
    exact ⟨[], inside, '/' :: more, qs, hpieces, List.cons_ne_nil _ _, rfl⟩

/-- In a document without comments, what would open one is in a string literal. -/
theorem inLiteral_of_opener (hno : ∀ p ∈ pieces cs, p.isComment = false) {before after : List Char}
    {c : Char} (hcs : cs = before ++ '/' :: c :: after) (hc : c = '/' ∨ c = '*') :
    InLiteral cs before := by
  induction cs using pieces_induction generalizing before with
  | nil => simp at hcs
  | @cut cs p behind hcut hpieces ih =>
    rw [hpieces, List.forall_mem_cons] at hno
    rcases mem_first_or_behind hpieces hcs with ⟨more, htext, hafter⟩ | ⟨before', rfl, hbehind⟩
    · cases hcut with
      | closed h behind => exact inLiteral_of_first hpieces htext
      | unclosed h => exact inLiteral_of_first hpieces htext
      | comment h => exact absurd h (by simp [hno.1])
      | @plain d behind hquote hline hblock =>
        -- a slash that stands for itself has neither mark behind it
        obtain ⟨rfl, hd⟩ | ⟨_, -, hnil⟩ := List.cons_eq_append_iff.mp htext
        · cases hd
          rw [List.nil_append] at hafter
          rcases hc with rfl | rfl
          · exact absurd (by rw [← hafter]; rfl) (hline rfl)
          · exact absurd (by rw [← hafter]; rfl) (hblock rfl)
        · simp at hnil
    · exact (ih hno.2 hbehind).cons hpieces

/-- **A stripped document is one.**  Stripping it again changes nothing: its pieces are those of the
document with newlines for the comments, so none of them is a comment, and wherever two characters
stand together that would open one, the first of them belongs to a string literal. -/
theorem strip_strip (text : String) :
    strip (strip text) = strip text
      ∧ pieces (strip text).toList = (pieces text.toList).flatMap Piece.left
      ∧ (∀ p ∈ pieces (strip text).toList, p.isComment = false)
      ∧ ∀ before c after, (strip text).toList = before ++ '/' :: c :: after → c = '/' ∨ c = '*' →
        InLiteral (strip text).toList before := by
  have hlist : (strip text).toList = stripFrom .code text.toList := by
    rw [strip, String.toList_ofList]
  have hno : ∀ p ∈ pieces (strip text).toList, p.isComment = false := by
    rw [hlist]
    exact fun p hp => isComment_of_mem_pieces_stripFrom hp
  refine ⟨?_, ?_, hno, fun before c after hsplit hc => inLiteral_of_opener hno hsplit hc⟩
  · rw [strip, stripFrom_of_no_comment hno, String.ofList_toList]
  · rw [hlist, pieces_stripFrom]

/-- A slash that a comment stands behind, and two slashes in a literal. -/
theorem strip_strip_slashes :
    let text := "\"//\" / /* * / **// // /"
    strip text = "\"//\" / / " ∧ strip (strip text) = strip text
      ∧ InLiteral (strip text).toList ['"'] := by
  intro text
  have hstrip : strip text = "\"//\" / / " := by decide +kernel
  obtain ⟨hagain, -, -, hopener⟩ := strip_strip text
  refine ⟨hstrip, hagain, hopener ['"'] '/' ['"', ' ', '/', ' ', '/', ' '] ?_ (Or.inl rfl)⟩
  rw [hstrip]
  decide +kernel

end RulePack.Comment
